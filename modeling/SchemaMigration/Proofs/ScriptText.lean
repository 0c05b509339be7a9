import SchemaMigration.Proofs.ChangeSetText
import SchemaMigration.Proofs.PlanLines
import SchemaMigration.Proofs.SchemaBuilder
import SchemaMigration.Script.Basic

/-!
This module contains what the text of a script tells about it: everything. Two scripts with the same
text have the same name and the same plans, whatever the names of their tables, columns and
connections look like.
-/

namespace SchemaMigration

open Json SchemaBuilder

/--
The columns whose definition can be read off a script. A default that is written by hand could look
like anything, so there must be none.
-/
structure ColumnDef.Plain (c : ColumnDef) : Prop where
  type : c.type.toList.all Script.isNamePart
  rawDefault : c.rawDefault = none
  values : ∀ v ∈ c.values, v.Exact

-- Tables that are deleted do not have their columns in a script.
def ChangeSet.Plain (cs : ChangeSet) : Prop :=
  ∀ table ∈ cs.keptTables, ∀ column ∈ table.2.columnDefs, column.2.Plain

namespace ColumnDef

variable {c : ColumnDef}

theorem legible_literal {method : String} (hmethod : '(' ∉ method.toList) (hne : method ≠ "change")
    {o : Option Json} (ho : ∀ v ∈ o, v.Exact) {m : Modifier}
    (h : (o.map Argument.literal).map (fun arg => (⟨method, arg⟩ : Modifier)) = some m) :
    m.Legible := by
  simp only [Option.map_map, Option.map_eq_some_iff] at h
  obtain ⟨v, hv, rfl⟩ := h
  exact ⟨hmethod, hne, by simp, by simpa [Argument.values] using ho v hv⟩

theorem legible_modifiers (h : c.Plain) : ∀ m ∈ c.modifiers, m.Legible := by
  have hoption : ∀ o ∈ c.options, ∀ v ∈ o, v.Exact := by
    intro o ho v hv
    apply h.values
    unfold values
    rw [List.mem_append, List.mem_filterMap]
    exact .inr ⟨o, ho, hv⟩
  simp only [options, List.forall_mem_cons] at hoption
  obtain ⟨hindex, hunique, hdefault, hprimary, hunsigned, hnullable, _, _⟩ := hoption
  unfold modifiers
  rw [List.forall_mem_filterMap, h.rawDefault]
  simp only [List.forall_mem_cons]
  refine ⟨?_, ?_, ?_, ?_, ?_, ?_, ?_, ?_, by simp⟩ <;> intro m hm
  case refine_1 => exact legible_literal (by simp) (by simp) hindex hm
  case refine_2 => exact legible_literal (by simp) (by simp) hunique hm
  case refine_3 => exact legible_literal (by simp) (by simp) hdefault hm
  case refine_4 => contradiction
  case refine_5 => exact legible_literal (by simp) (by simp) hprimary hm
  case refine_6 => exact legible_literal (by simp) (by simp) hunsigned hm
  case refine_7 => exact legible_literal (by simp) (by simp) hnullable hm
  case refine_8 =>
    simp only [Option.map_map, Option.map_eq_some_iff] at hm
    obtain ⟨_, _, rfl⟩ := hm
    exact ⟨by simp, by simp, by simp, by simp [Argument.values]⟩

theorem legible_call (h : c.Plain) (declared : String) (change : Bool) :
    (c.call declared change).Legible where
  type := by
    intro hmem
    have hpart := List.all_eq_true.mp h.type '(' hmem
    contradiction
  args := ⟨_, _, rfl⟩
  values := by
    intro v hv
    cases List.mem_cons.mp hv with
    | inl hv =>
      rw [hv]
      exact ⟨.string _, .string _⟩
    | inr hv =>
      apply h.values
      simp [values, hv]
  modifiers := legible_modifiers h

end ColumnDef

theorem Relation.legible_dropKey {relation : Option Relation} {connection : String} :
    ∀ s ∈ Relation.dropKey relation connection, s.Legible := by
  cases relation with
  | none => simp
  | some r => simp [dropKey, dropKeys, Statement.Legible]

theorem TableChange.legible_statements {t : TableChange}
    (h : ∀ column ∈ t.columnDefs, column.2.Plain) : ∀ s ∈ t.statements, s.Legible := by
  unfold columnDefs at h
  rw [List.forall_mem_append] at h
  obtain ⟨hcreated, hupdated⟩ := h
  unfold statements
  rw [List.forall_mem_append, List.forall_mem_append]
  refine ⟨⟨?_, ?_⟩, ?_⟩
  . rw [List.forall_mem_map]
    intro column hcolumn
    exact ColumnDef.legible_call (hcreated column hcolumn) _ _
  . rw [List.forall_mem_flatMap]
    intro column hcolumn
    unfold ColumnDef.update
    rw [List.forall_mem_append, List.forall_mem_singleton]
    exact ⟨Relation.legible_dropKey, ColumnDef.legible_call (hupdated column hcolumn) _ _⟩
  . rw [List.forall_mem_flatMap]
    intro column _
    unfold ColumnDrop.deletion
    rw [List.forall_mem_append, List.forall_mem_singleton]
    exact ⟨Relation.legible_dropKey, trivial⟩

theorem Block.legible_body {b : Block} (h : ∀ s ∈ b.statements, s.Legible) :
    ∀ l ∈ b.body, l.Legible := by
  unfold body
  rw [List.forall_mem_append, List.forall_mem_map, List.forall_mem_singleton]
  exact ⟨h, trivial⟩

namespace ChangeSet

variable {lookup : Lookup} {options : Options} {cs : ChangeSet} {plan : Plan}

theorem legible_relationshipGroups {groups : List Group}
    (h : cs.relationshipGroups lookup = .ok groups) : ∀ g ∈ groups, ∀ l ∈ g.lines, l.Legible := by
  obtain ⟨keyGroups, hforall, hgroups⟩ := relationshipGroups_eq_ok_iff.mp h
  have hcomment : (Line.comment keysComment).Legible := by
    unfold keysComment
    simp [Line.Legible]
  have hkeys : ∀ g ∈ keyGroups, ∀ l ∈ g.lines, l.Legible := by
    intro g hg
    obtain ⟨entry, _, hentry⟩ := exists_of_forall₂_of_mem hforall hg
    obtain ⟨keys, _, rfl⟩ := TableChange.relationshipGroup_eq_ok_iff.mp hentry
    unfold Group.lines
    rw [List.forall_mem_cons]
    refine ⟨trivial, Block.legible_body ?_⟩
    rw [List.forall_mem_map]
    intro key _
    trivial
  intro g hg
  rw [hgroups] at hg
  split at hg
  . contradiction
  . cases List.mem_cons.mp hg with
    | inl hg =>
      rw [hg]
      unfold Group.lines
      rw [List.forall_mem_singleton]
      exact hcomment
    | inr hg => exact hkeys g hg

theorem legible_groups (hplain : cs.Plain) (h : cs.compileWith lookup options = .ok plan) :
    ∀ g ∈ plan.groups, ∀ l ∈ g.lines, l.Legible := by
  unfold Plain keptTables at hplain
  rw [List.forall_mem_append] at hplain
  obtain ⟨hcreated, hupdated⟩ := hplain
  obtain ⟨groups, hgroups, hplan⟩ := groups_of_compileWith h
  rw [hplan, List.forall_mem_append, List.forall_mem_append, List.forall_mem_append]
  refine ⟨⟨⟨?_, ?_⟩, legible_relationshipGroups hgroups⟩, ?_⟩
  . unfold creationGroups
    rw [List.forall_mem_map]
    intro table htable
    unfold Group.lines
    rw [List.forall_mem_cons]
    exact ⟨trivial, Block.legible_body (TableChange.legible_statements (hcreated table htable))⟩
  . unfold updateGroups
    rw [List.forall_mem_map]
    intro table htable
    unfold Group.lines
    rw [List.forall_mem_cons]
    exact ⟨trivial, Block.legible_body (TableChange.legible_statements (hupdated table htable))⟩
  . unfold deletionGroups
    rw [List.forall_mem_map]
    intro table _
    unfold Group.lines
    rw [List.forall_mem_map]
    intro call _
    trivial

theorem legible_lines (hplain : cs.Plain) (h : cs.compileWith lookup options = .ok plan) :
    ∀ l ∈ plan.lines, l.Legible := by
  intro l hl
  cases Plan.mem_lines hl with
  | inl hblank =>
    rw [hblank]
    trivial
  | inr hgroup =>
    obtain ⟨g, hg, hl⟩ := hgroup
    exact legible_groups hplain h g hg l hl

end ChangeSet

namespace SchemaBuilder

def textOf (lines : List String) : List Char := lines.flatMap fun line => line.toList ++ ['\n']

theorem toList_lines {lines : List String} (h : lines ≠ []) :
    ("\n".intercalate lines ++ "\n").toList = textOf lines := by
  rw [String.toList_append, String.toList_intercalate]
  have hlines : lines.map String.toList ≠ [] := by simpa using h
  refine (intercalate_append hlines).trans ?_
  rw [List.flatMap_map]
  rfl

def closing : List Char := "    \x7d\n".toList

theorem lineText_ne_closing (l : Line) {rest rest' : List Char} :
    lineText l ++ rest ≠ closing ++ rest' := by
  intro h
  by_cases hblank : l = .blank
  . subst hblank
    have htext : lineText .blank = ['\n'] := rfl
    rw [htext] at h
    unfold closing at h
    simp at h
  . rw [lineText_of_ne_blank hblank] at h
    unfold closing at h
    simp at h

theorem delimited_line : Delimited Line.Legible (fun _ => True) lineText where
  follows := by simp
  cancel hl hl' _ _ h := line_cancel hl hl' h

theorem lines_cancel {ls ls' : List Line} (hls : ∀ l ∈ ls, l.Legible) (hls' : ∀ l ∈ ls', l.Legible)
    {rest rest' : List Char}
    (h : ls.flatMap lineText ++ (closing ++ rest) = ls'.flatMap lineText ++ (closing ++ rest')) :
    ls = ls' ∧ rest = rest' := by
  have hend : ∀ {l rest tail}, Line.Legible l → closing ++ rest ≠ lineText l ++ tail := by
    intro l rest tail _
    exact (lineText_ne_closing l).symm
  obtain ⟨hlines, hrest⟩ := delimited_line.flatMap_cancel hls hls' trivial trivial hend hend h
  exact ⟨hlines, List.append_cancel_left hrest⟩

def opening (name : String) : List Char :=
  textOf ((Dialect.schemaBuilder.openProcedure name).map
    (Writer.indentation Dialect.schemaBuilder.unit 1 ++ ·))

theorem textOf_append (xs ys : List String) : textOf (xs ++ ys) = textOf xs ++ textOf ys :=
  List.flatMap_append

theorem textOf_procedure (name : String) (p : Plan) :
    textOf (Dialect.schemaBuilder.procedure name p) =
      opening name ++ (p.lines.flatMap lineText ++ closing) := by
  have hlines : textOf (p.lines.map (Line.write .schemaBuilder Dialect.schemaBuilder.unit 2)) =
      p.lines.flatMap lineText := by
    unfold textOf
    rw [List.flatMap_map]
    rfl
  have hclosing : textOf (Dialect.schemaBuilder.closeProcedure.map
      (Writer.indentation Dialect.schemaBuilder.unit 1 ++ ·)) = closing := by decide
  unfold Dialect.procedure
  rw [textOf_append, textOf_append, hlines, hclosing, List.append_assoc]
  rfl

theorem textOf_openScript (name : String) :
    textOf (Dialect.schemaBuilder.openScript name) =
      "class ".toList ++ (name.toList ++ ' ' :: "extends Migration\n\x7b\n".toList) := by
  change textOf ["class " ++ name ++ " extends Migration", "\x7b"] = _
  unfold textOf
  simp

theorem toList_render (s : Script) :
    (s.render .schemaBuilder).toList =
      textOf Dialect.schemaBuilder.preamble ++ (textOf (Dialect.schemaBuilder.openScript s.name)
        ++ (opening "up" ++ (s.up.lines.flatMap lineText ++ (closing ++ (textOf [""]
          ++ (opening "down" ++ (s.down.lines.flatMap lineText ++ (closing
            ++ textOf Dialect.schemaBuilder.closeScript)))))))) := by
  have hlines : s.lines .schemaBuilder ≠ [] := by simp [Script.lines]
  rw [Script.render_eq, toList_lines hlines]
  unfold Script.lines
  simp only [textOf_append, textOf_procedure, List.append_assoc]

end SchemaBuilder

namespace Script

theorem space_notMem_of_isName {name : String} (h : isName name) : ' ' ∉ name.toList := by
  intro hspace
  unfold isName at h
  split at h
  . next hname =>
    rw [hname] at hspace
    contradiction
  . next c cs hname =>
    rw [Bool.and_eq_true] at h
    rw [hname, List.mem_cons] at hspace
    cases hspace with
    | inl hspace =>
      rw [← hspace] at h
      exact absurd h.1 (by decide)
    | inr hspace =>
      have hpart := List.all_eq_true.mp h.2 ' ' hspace
      contradiction

variable {registry registry' : Registry} {options options' : Options} {name name' : String}
variable {up up' down down' : ChangeSet} {s s' : Script}

theorem checkName_eq_ok_iff : checkName name = .ok () ↔ isName name := by
  unfold checkName
  split <;> simp_all

theorem assembleWith_eq_ok_iff {lookup : Lookup} :
    assembleWith lookup options name up down = .ok s ↔
      isName name ∧ s.name = name ∧ up.compileWith lookup options = .ok s.up ∧
        down.compileWith lookup options = .ok s.down := by
  unfold assembleWith
  rw [check_bind_eq_ok_iff, checkName_eq_ok_iff]
  simp only [bind_eq_ok_iff, Except.ok.injEq]
  constructor
  . intro h
    obtain ⟨hname, _, hup, _, hdown, rfl⟩ := h
    exact ⟨hname, rfl, hup, hdown⟩
  . intro h
    obtain ⟨hname, rfl, hup, hdown⟩ := h
    exact ⟨hname, s.up, hup, s.down, hdown, rfl⟩

theorem assemble_eq_ok_iff :
    assemble registry options name up down = .ok s ↔
      isName name ∧ s.name = name ∧ up.compile registry options = .ok s.up ∧
        down.compile registry options = .ok s.down :=
  assembleWith_eq_ok_iff

/--
No two scripts have the same text, as long as their columns are plain. The names of connections,
tables, columns, keys and entities may be any strings.
-/
theorem eq_of_render (hup : up.Plain) (hdown : down.Plain) (hup' : up'.Plain)
    (hdown' : down'.Plain) (h : assemble registry options name up down = .ok s)
    (h' : assemble registry' options' name' up' down' = .ok s')
    (htext : s.render .schemaBuilder = s'.render .schemaBuilder) : s = s' := by
  obtain ⟨hname, rfl, hups, hdowns⟩ := assemble_eq_ok_iff.mp h
  obtain ⟨hname', rfl, hups', hdowns'⟩ := assemble_eq_ok_iff.mp h'
  rw [← String.toList_inj, toList_render, toList_render] at htext
  have hbody := List.append_cancel_left htext
  rw [textOf_openScript, textOf_openScript] at hbody
  simp only [List.append_assoc, List.append_cancel_left_eq, List.cons_append] at hbody
  obtain ⟨hname_eq, hbody⟩ := until_cancel (space_notMem_of_isName hname)
    (space_notMem_of_isName hname') hbody
  have hplans := List.append_cancel_left (List.append_cancel_left hbody)
  obtain ⟨hup_lines, hrest⟩ := lines_cancel (ChangeSet.legible_lines hup hups)
    (ChangeSet.legible_lines hup' hups') hplans
  have hrest := List.append_cancel_left (List.append_cancel_left hrest)
  obtain ⟨hdown_lines, _⟩ := lines_cancel (ChangeSet.legible_lines hdown hdowns)
    (ChangeSet.legible_lines hdown' hdowns') hrest
  have hup_eq := Plan.eq_of_lines hups hups' hup_lines
  have hdown_eq := Plan.eq_of_lines hdowns hdowns' hdown_lines
  rw [String.toList_inj] at hname_eq
  cases s
  cases s'
  simp_all

end Script

-- The names look like the end of a procedure, the end of a name and the mark of a change.
def forgedColumn : ColumnDef where
  type := "string"
  typeArgs := [.number (.integer 40), .string "\")->change();"]
  nullable := some .null
  belongsTo := some ⟨"', '", "User"⟩

def forgedChanges : ChangeSet where
  created := some ⟨[("');\n        \x7d);\n    \x7d\n", {
    connection := "it's \\"
    created := some ⟨[("\")->change();", forgedColumn)]⟩ })]⟩

theorem forgedColumn_plain : forgedColumn.Plain where
  type := by decide
  rawDefault := rfl
  values := by
    have hvalues : forgedColumn.values =
        [.number (.integer 40), .string "\")->change();", .null] := rfl
    rw [hvalues]
    simp only [List.forall_mem_cons, List.not_mem_nil, false_imp_iff, implies_true, and_true]
    refine ⟨⟨.number ?_, .integer _⟩, ⟨.string _, .string _⟩, ⟨.null, .null⟩⟩
    simp [Number.InRange]

theorem forgedChanges_plain : forgedChanges.Plain := by
  intro table htable column hcolumn
  obtain rfl := List.mem_singleton.mp htable
  obtain rfl := List.mem_singleton.mp hcolumn
  exact forgedColumn_plain

-- A bucket without tables leaves nothing in a script.
theorem forgedScript_eq_of_render :
    ∃ s s',
      Script.assemble blogRegistry {} "Forged" forgedChanges .empty = .ok s ∧
      Script.assemble blogRegistry {} "Forged" forgedChanges { deleted := some ⟨[]⟩ } = .ok s' ∧
      s.render .schemaBuilder = s'.render .schemaBuilder ∧ s = s' := by
  have hempty : ChangeSet.empty.Plain := by
    intro table htable
    contradiction
  have hbucket : ({ deleted := some ⟨[]⟩ } : ChangeSet).Plain := by
    intro table htable
    contradiction
  have hassemble : ∃ s,
      Script.assemble blogRegistry {} "Forged" forgedChanges .empty = .ok s ∧
      Script.assemble blogRegistry {} "Forged" forgedChanges { deleted := some ⟨[]⟩ } = .ok s :=
    ⟨_, rfl, rfl⟩
  obtain ⟨s, hs, hs'⟩ := hassemble
  refine ⟨s, s, hs, hs', rfl, ?_⟩
  exact Script.eq_of_render forgedChanges_plain hempty forgedChanges_plain hbucket hs hs' rfl

end SchemaMigration
