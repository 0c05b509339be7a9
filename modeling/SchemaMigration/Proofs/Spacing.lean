import SchemaMigration.Proofs.PlanLines
import SchemaMigration.Proofs.SchemaBuilder
import SchemaMigration.Text.Blank
import Mathlib.Data.List.Chain

/-!
This module contains the layout of plans as text. Writing a plan adds its lines behind those that
are there and nothing else. In scripts that call a schema builder blank lines keep passes and groups
apart and stand nowhere else, and without them and without the indentation there is left what each
group and each of its statements is written as.
-/

namespace SchemaMigration

structure Spaced {α : Type} (isBlank : α → Bool) (xs : List α) : Prop where
  head : ∀ x ∈ xs.head?, isBlank x = false
  last : ∀ x ∈ xs.getLast?, isBlank x = false
  chain : xs.IsChain fun x y => isBlank x = false ∨ isBlank y = false

namespace Spaced

variable {α β : Type} {isBlank : α → Bool} {xs ys : List α}

theorem nil : Spaced isBlank [] where
  head := by simp
  last := by simp
  chain := .nil

theorem of_forall (h : ∀ x ∈ xs, isBlank x = false) : Spaced isBlank xs where
  head x hx := h x (List.mem_of_mem_head? hx)
  last x hx := h x (List.mem_of_mem_getLast? hx)
  chain := by
    apply List.Pairwise.isChain
    exact List.pairwise_of_forall_mem_list fun x hx _ _ => .inl (h x hx)

theorem append (hxs : Spaced isBlank xs) (hys : Spaced isBlank ys) :
    Spaced isBlank (xs ++ ys) where
  head := by
    intro x hx
    rw [List.head?_append, Option.mem_def, Option.or_eq_some_iff] at hx
    cases hx with
    | inl hx => exact hxs.head x hx
    | inr hx => exact hys.head x hx.2
  last := by
    intro x hx
    rw [List.getLast?_append, Option.mem_def, Option.or_eq_some_iff] at hx
    cases hx with
    | inl hx => exact hys.last x hx
    | inr hx => exact hxs.last x hx.2
  chain := by
    rw [List.isChain_append]
    exact ⟨hxs.chain, hys.chain, fun x hx y _ => .inl (hxs.last x hx)⟩

theorem append_cons (hxs : Spaced isBlank xs) (hys : Spaced isBlank ys) (hxs_ne : xs ≠ [])
    (hys_ne : ys ≠ []) (b : α) : Spaced isBlank (xs ++ b :: ys) where
  head := by
    intro x hx
    rw [List.head?_append_of_ne_nil _ hxs_ne] at hx
    exact hxs.head x hx
  last := by
    intro x hx
    rw [List.getLast?_append_of_ne_nil _ (List.cons_ne_nil _ _)] at hx
    rw [List.getLast?_cons_of_ne_nil hys_ne] at hx
    exact hys.last x hx
  chain := by
    rw [List.isChain_append, List.isChain_cons]
    refine ⟨hxs.chain, ⟨fun y hy => .inr (hys.head y hy), hys.chain⟩, ?_⟩
    intro x hx y _
    exact .inl (hxs.last x hx)

theorem intercalate {separator : List α} (hseparator : separator = [] ∨ ∃ b, separator = [b])
    {parts : List (List α)} (h : ∀ part ∈ parts, part ≠ [] ∧ Spaced isBlank part) :
    Spaced isBlank (separator.intercalate parts) ∧
      (parts ≠ [] → separator.intercalate parts ≠ []) := by
  induction parts with
  | nil => exact ⟨nil, by simp⟩
  | cons part parts ih =>
    rw [List.forall_mem_cons] at h
    obtain ⟨⟨hpart_ne, hpart⟩, hparts⟩ := h
    cases parts with
    | nil =>
      rw [List.intercalate_singleton]
      exact ⟨hpart, fun _ => hpart_ne⟩
    | cons next parts =>
      obtain ⟨hrest, hrest_ne⟩ := ih hparts
      rw [List.intercalate_cons_cons, List.append_assoc]
      refine ⟨?_, by simp [hpart_ne]⟩
      obtain rfl | ⟨b, rfl⟩ := hseparator
      . exact hpart.append hrest
      . exact hpart.append_cons hrest hpart_ne (hrest_ne (by simp)) b

theorem map {f : β → α} {zs : List β} (h : Spaced (fun z => isBlank (f z)) zs) :
    Spaced isBlank (zs.map f) where
  head := by
    intro x hx
    rw [List.head?_map, Option.mem_def, Option.map_eq_some_iff] at hx
    obtain ⟨z, hz, rfl⟩ := hx
    exact h.head z hz
  last := by
    intro x hx
    rw [List.getLast?_map, Option.mem_def, Option.map_eq_some_iff] at hx
    obtain ⟨z, hz, rfl⟩ := hx
    exact h.last z hz
  chain := (List.isChain_map f).mpr h.chain

end Spaced

theorem Group.isBlank_lines (g : Group) : ∀ l ∈ g.lines, l.isBlank = false := by
  have hfilter := List.filter_eq_self.mp g.filter_lines
  simpa using hfilter

theorem Plan.spaced_lines {p : Plan} (hpasses : ∀ pass ∈ p.passes, pass.groups ≠ [])
    (hgroups : ∀ g ∈ p.groups, g.lines ≠ []) : Spaced Line.isBlank p.lines := by
  have hseparator : ∀ separated, separator separated = [] ∨ ∃ l, separator separated = [l] := by
    intro separated
    cases separated with
    | false => exact .inl rfl
    | true => exact .inr ⟨.blank, rfl⟩
  have hpass : ∀ pass ∈ p.passes, pass.lines ≠ [] ∧ Spaced Line.isBlank pass.lines := by
    intro pass hpass
    have hparts : ∀ part ∈ pass.groups.map Group.lines, part ≠ [] ∧ Spaced Line.isBlank part := by
      rw [List.forall_mem_map]
      intro g hg
      exact ⟨hgroups g (List.mem_flatMap.mpr ⟨pass, hpass, hg⟩), .of_forall g.isBlank_lines⟩
    obtain ⟨hspaced, hne⟩ := Spaced.intercalate (hseparator pass.kind.spacesGroups) hparts
    refine ⟨hne ?_, hspaced⟩
    simpa using hpasses pass hpass
  apply (Spaced.intercalate (hseparator true) _).1
  rw [List.forall_mem_map]
  exact hpass

theorem ChangeSet.spaced_lines {lookup : Lookup} {options : Options} {cs : ChangeSet} {plan : Plan}
    (h : cs.compileWith lookup options = .ok plan) : Spaced Line.isBlank plan.lines := by
  obtain ⟨p, hp, rfl⟩ := exists_passGroups h
  apply Plan.spaced_lines
  . intro pass hpass
    have hne := (List.mem_filter.mp hpass).2
    simpa using hne
  . rw [p.groups_plan]
    intro g hg
    exact Group.lines_ne_nil (PassGroups.counted_of_compiled hp g hg)

def Line.level : Line → Nat
  | .statement _ => 1
  | _ => 0

def Line.text (d : Dialect) : Line → String
  | .blank => ""
  | .create connection table => d.openCreate connection table
  | .alter connection table => d.openAlter connection table
  | .statement s => d.statement s
  | .close => d.closeTable
  | .call c => d.call c
  | .comment text => d.comment text

theorem Line.write_of_isBlank {l : Line} (h : l.isBlank = false) (d : Dialect) (unit : String)
    (depth : Nat) :
    l.write d unit depth = Writer.indentation unit (depth + l.level) ++ l.text d := by
  cases l with
  | blank => contradiction
  | _ => rfl

namespace Group

def statements : Group → List Statement
  | .createTable b => b.statements
  | .alterTable b => b.statements
  | .calls list => list.map .connection
  | .comment _ => []

def opening (d : Dialect) : Group → List String
  | .createTable b => [d.openCreate b.connection b.table]
  | .alterTable b => [d.openAlter b.connection b.table]
  | .calls _ => []
  | .comment text => [d.comment text]

def closing (d : Dialect) : Group → List String
  | .createTable _ => [d.closeTable]
  | .alterTable _ => [d.closeTable]
  | .calls _ => []
  | .comment _ => []

def texts (d : Dialect) (g : Group) : List String :=
  g.opening d ++ g.statements.map d.statement ++ g.closing d

theorem map_text_lines (d : Dialect) (g : Group) : g.lines.map (Line.text d) = g.texts d := by
  cases g with
  | createTable b => simp [lines, Block.body, texts, opening, closing, statements, Line.text]
  | alterTable b => simp [lines, Block.body, texts, opening, closing, statements, Line.text]
  | calls list => simp [lines, texts, opening, closing, statements, Line.text, Dialect.statement]
  | comment text => rfl

end Group

theorem Plan.map_text_lines (d : Dialect) (p : Plan) :
    (p.lines.filter (!·.isBlank)).map (Line.text d) = p.groups.flatMap (Group.texts d) := by
  rw [filter_lines, List.map_flatMap]
  simp only [Group.map_text_lines]

namespace Text

def trimStart (s : String) : String := String.ofList (s.toList.dropWhile isWhiteSpace)

theorem isBlank_append (s t : String) : isBlank (s ++ t) = (isBlank s && isBlank t) := by
  simp [isBlank]

theorem isBlank_indentation {unit : String} (h : isBlank unit = true) (depth : Nat) :
    isBlank (Writer.indentation unit depth) = true := by
  unfold isBlank Writer.indentation at *
  rw [String.toList_join, List.all_flatMap, List.all_eq_true]
  intro s hs
  rw [List.eq_of_mem_replicate hs]
  exact h

theorem isBlank_of_cons {s : String} {c : Char} {tail : List Char} (h : s.toList = c :: tail)
    (hc : isWhiteSpace c = false) : isBlank s = false := by
  simp [isBlank, h, hc]

theorem trimStart_append {s t : String} {c : Char} {tail : List Char} (hs : isBlank s = true)
    (ht : t.toList = c :: tail) (hc : isWhiteSpace c = false) : trimStart (s ++ t) = t := by
  unfold trimStart
  rw [String.toList_append, List.dropWhile_append_of_pos (List.all_eq_true.mp hs), ht]
  rw [List.dropWhile_cons_of_neg (by simp [hc]), ← ht, String.ofList_toList]

end Text

namespace SchemaBuilder

-- No line begins with white space behind its indentation, be the names in it what they may.
theorem text_eq_cons {l : Line} (h : l.isBlank = false) :
    ∃ c tail, (l.text .schemaBuilder).toList = c :: tail ∧ Text.isWhiteSpace c = false := by
  have hopen : ∀ method connection table, ∃ tail,
      (openTable method connection table).toList = 'S' :: tail := by
    intro method connection table
    rw [toList_openTable]
    exact ⟨_, rfl⟩
  have hcall : ∀ c, ∃ tail, (call c).toList = 'S' :: tail := by
    intro c
    rw [toList_call]
    exact ⟨_, rfl⟩
  have hcolumn : ∀ c, ∃ tail, (column c).toList = '$' :: tail := by
    intro c
    unfold column
    simp only [String.toList_append, List.append_assoc]
    exact ⟨_, rfl⟩
  cases l with
  | blank => contradiction
  | create connection table =>
    obtain ⟨tail, htail⟩ := hopen "create" connection table
    exact ⟨'S', tail, htail, by decide⟩
  | alter connection table =>
    obtain ⟨tail, htail⟩ := hopen "table" connection table
    exact ⟨'S', tail, htail, by decide⟩
  | close => exact ⟨_, _, rfl, by decide⟩
  | call c =>
    obtain ⟨tail, htail⟩ := hcall c
    exact ⟨'S', tail, htail, by decide⟩
  | comment text => exact ⟨'/', _, String.toList_append, by decide⟩
  | statement s =>
    obtain ⟨tail, htail⟩ := exists_tail s
    cases s with
    | connection c =>
      obtain ⟨tail, htail⟩ := hcall c
      exact ⟨'S', tail, htail, by decide⟩
    | column c =>
      obtain ⟨tail, htail⟩ := hcolumn c
      exact ⟨'$', tail, htail, by decide⟩
    | _ => exact ⟨'$', _, htail, by decide⟩

variable (unit : String) (depth : Nat) {l : Line}

theorem isBlank_write (l : Line) :
    Text.isBlank (l.write .schemaBuilder unit depth) = l.isBlank := by
  cases hblank : l.isBlank with
  | true =>
    cases l with
    | blank => rfl
    | _ => contradiction
  | false =>
    obtain ⟨c, tail, htext, hc⟩ := text_eq_cons hblank
    rw [Line.write_of_isBlank hblank, Text.isBlank_append, Text.isBlank_of_cons htext hc]
    exact Bool.and_false _

theorem trimStart_write (hunit : Text.isBlank unit = true) (h : l.isBlank = false) :
    Text.trimStart (l.write .schemaBuilder unit depth) = l.text .schemaBuilder := by
  obtain ⟨c, tail, htext, hc⟩ := text_eq_cons h
  rw [Line.write_of_isBlank h]
  exact Text.trimStart_append (Text.isBlank_indentation hunit _) htext hc

theorem filter_map_write (ls : List Line) :
    (ls.map (Line.write .schemaBuilder unit depth)).filter (!Text.isBlank ·) =
      (ls.filter (!·.isBlank)).map (Line.write .schemaBuilder unit depth) := by
  rw [List.filter_map]
  congr 2
  funext l
  exact congrArg not (isBlank_write unit depth l)

end SchemaBuilder

namespace Dialect

theorem toList_lines_writePlan (d : Dialect) (w : Writer) (p : Plan) :
    (d.writePlan w p).lines.toList =
      w.lines.toList ++ p.lines.map (Line.write d w.unit w.depth) := by
  rw [writePlan_eq_add]
  simp [Writer.add, Writer.append]

/--
The layout of plans. The lines of a plan are written behind the others, and the writer is on the
level where it was. For a plan that was compiled, there are no blank lines at the ends and no two in
a row, and the other lines, without their indentation, are the texts of the groups and of their
statements in order.
-/
theorem writePlan_layout :
    (∀ (d : Dialect) (w : Writer) (p : Plan),
      (d.writePlan w p).unit = w.unit ∧ (d.writePlan w p).depth = w.depth ∧
      (d.writePlan w p).lines.toList =
        w.lines.toList ++ p.lines.map (Line.write d w.unit w.depth)) ∧
    ∀ lookup options (cs : ChangeSet) plan, cs.compileWith lookup options = .ok plan →
      ∀ w : Writer, ∃ texts,
        (schemaBuilder.writePlan w plan).lines.toList = w.lines.toList ++ texts ∧
        Spaced Text.isBlank texts ∧
        List.Forall₂
          (fun text own => ∃ level, (level = w.depth ∨ level = w.depth + 1) ∧
            text = Writer.indentation w.unit level ++ own)
          (texts.filter (!Text.isBlank ·)) (plan.groups.flatMap (Group.texts schemaBuilder)) ∧
        (Text.isBlank w.unit = true →
          (texts.filter (!Text.isBlank ·)).map Text.trimStart =
            plan.groups.flatMap (Group.texts schemaBuilder)) := by
  constructor
  . intro d w p
    refine ⟨?_, ?_, d.toList_lines_writePlan w p⟩ <;> rw [writePlan_eq_add] <;> rfl
  . intro lookup options cs plan h w
    refine ⟨_, toList_lines_writePlan _ w plan, ?_, ?_, ?_⟩
    . apply Spaced.map
      simp only [SchemaBuilder.isBlank_write]
      exact ChangeSet.spaced_lines h
    . rw [SchemaBuilder.filter_map_write, ← Plan.map_text_lines]
      rw [List.forall₂_map_left_iff, List.forall₂_map_right_iff, List.forall₂_same]
      intro l hl
      have hblank : l.isBlank = false := by simpa using (List.mem_filter.mp hl).2
      refine ⟨w.depth + l.level, ?_, Line.write_of_isBlank hblank _ _ _⟩
      cases l <;> simp [Line.level]
    . intro hunit
      rw [SchemaBuilder.filter_map_write, ← Plan.map_text_lines, List.map_map]
      apply List.map_congr_left
      intro l hl
      have hblank : l.isBlank = false := by simpa using (List.mem_filter.mp hl).2
      exact SchemaBuilder.trimStart_write _ _ hunit hblank

end Dialect

-- The plan stands behind a line and one level deep, which it leaves as they are.
theorem blogChanges_layout :
    ∃ plan, blogChanges.compileWith blogRegistry.lookup {} = .ok plan ∧
      ∃ texts,
        (Dialect.schemaBuilder.writePlan ⟨"\t", 1, #["begin"]⟩ plan).lines.toList =
          "begin" :: texts ∧
        Spaced Text.isBlank texts ∧
        (texts.filter (!Text.isBlank ·)).map Text.trimStart =
          plan.groups.flatMap (Group.texts .schemaBuilder) := by
  obtain ⟨plan, hplan⟩ := exists_blogPlan
  obtain ⟨texts, htexts, hspaced, _, htrim⟩ :=
    Dialect.writePlan_layout.2 _ _ _ _ hplan ⟨"\t", 1, #["begin"]⟩
  exact ⟨plan, hplan, texts, htexts, hspaced, htrim (by decide)⟩

end SchemaMigration
