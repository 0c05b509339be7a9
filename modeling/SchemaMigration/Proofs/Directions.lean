import SchemaMigration.Proofs.Accounting
import SchemaMigration.Proofs.Dependence
import SchemaMigration.Proofs.ScriptText

/-!
This module contains how the two directions of a script keep apart. There is a script if its name is
an identifier and both directions compile. Its text is cut behind the blank line between the two
procedures: what is in front depends on the name and one direction only, and what is behind on the
other direction only.
-/

namespace SchemaMigration

theorem Dialect.procedure_of_lines {p : Plan} (h : p.lines = []) (direction : String) :
    schemaBuilder.procedure direction p =
      ["    public function " ++ direction ++ "()", "    \x7b", "    \x7d"] := by
  unfold procedure
  rw [h]
  change ["    " ++ ("public function " ++ direction ++ "()"), _, _] = _
  rw [← String.append_assoc, ← String.append_assoc]
  rfl

namespace ChangeSet

variable {cs : ChangeSet} {lookup lookup' : Lookup} {options options' : Options}
variable {plan plan' : Plan}

theorem lines_eq_nil_iff (h : cs.compileWith lookup options = .ok plan) :
    plan.lines = [] ↔ cs.isEmpty = true := by
  have haccounts := compileWith_accounts h
  rw [← haccounts.isEmpty]
  unfold Plan.isEmpty
  rw [List.isEmpty_iff]
  constructor
  . intro hlines
    obtain ⟨p, hp, rfl⟩ := exists_passGroups h
    have hnone : ∀ g ∈ p.plan.groups, g.lines = [] := by
      rw [← List.flatMap_eq_nil_iff, ← Plan.filter_lines, hlines]
      rfl
    rw [List.eq_nil_iff_forall_not_mem]
    intro pass hpass
    obtain ⟨g, hg⟩ := List.exists_mem_of_ne_nil _ (haccounts.groups pass hpass)
    have hmem : g ∈ p.plan.groups := List.mem_flatMap.mpr ⟨pass, hpass, hg⟩
    have hcounted : g.Counted := by
      rw [p.groups_plan] at hmem
      exact PassGroups.counted_of_compiled hp g hmem
    exact Group.lines_ne_nil hcounted (hnone g hmem)
  . intro hpasses
    unfold Plan.lines
    rw [hpasses]
    rfl

theorem exists_compileWith_of_isEmpty (h : cs.isEmpty = true) :
    ∃ plan, cs.compileWith lookup options = .ok plan := by
  obtain ⟨hcreated, hupdated, hdeleted⟩ := isEmpty_iff.mp h
  have hnone : ∀ bucket, cs.tables bucket = [] := by
    intro bucket
    cases bucket <;> assumption
  have htables : cs.allTables = [] := by
    rw [List.eq_nil_iff_forall_not_mem]
    intro entry hentry
    have hmem := mem_allTables_iff.mp hentry
    rw [hnone] at hmem
    contradiction
  have hkept : cs.keptTables = [] := by
    unfold keptTables
    rw [hcreated, hupdated]
    rfl
  rw [exists_compileWith_iff, hkept]
  refine ⟨?_, .inr ?_, by simp⟩
  . unfold validate
    rw [htables]
    rfl
  . intro c hc
    rw [mem_definedColumns_iff, hkept] at hc
    simp at hc

theorem plan_unique
    (hmodels : ∀ c ∈ cs.definedColumns, ∀ model, c.model? = some model →
      lookup model = lookup' model)
    (h : cs.compileWith lookup options = .ok plan)
    (h' : cs.compileWith lookup' options' = .ok plan') : plan = plan' := by
  have hallowed : cs.compileWith lookup ⟨true⟩ = .ok plan := compileWith_of_allowed h rfl
  have hallowed' : cs.compileWith lookup' ⟨true⟩ = .ok plan' := compileWith_of_allowed h' rfl
  rw [compileWith_congr_models hmodels, hallowed'] at hallowed
  exact (Except.ok.inj hallowed).symm

end ChangeSet

namespace Script

def IsLetter (c : Char) : Prop := ('a' ≤ c ∧ c ≤ 'z') ∨ ('A' ≤ c ∧ c ≤ 'Z')

def IsDigit (c : Char) : Prop := '0' ≤ c ∧ c ≤ '9'

def IsIdentifier (name : String) : Prop :=
  ∃ c cs, name.toList = c :: cs ∧ (IsLetter c ∨ c = '_') ∧
    ∀ c' ∈ cs, IsLetter c' ∨ IsDigit c' ∨ c' = '_'

theorem isAlpha_iff {c : Char} : c.isAlpha = true ↔ IsLetter c := by
  unfold Char.isAlpha Char.isUpper Char.isLower
  simp only [Bool.or_eq_true, Bool.and_eq_true, decide_eq_true_eq, ge_iff_le]
  exact or_comm

theorem isDigit_iff {c : Char} : c.isDigit = true ↔ IsDigit c := by
  simp only [Char.isDigit, Bool.and_eq_true, decide_eq_true_eq, ge_iff_le]
  rfl

theorem isNameStart_iff {c : Char} : isNameStart c = true ↔ IsLetter c ∨ c = '_' := by
  unfold isNameStart
  rw [Bool.or_eq_true, isAlpha_iff, beq_iff_eq]

theorem isNamePart_iff {c : Char} :
    isNamePart c = true ↔ IsLetter c ∨ IsDigit c ∨ c = '_' := by
  unfold isNamePart Char.isAlphanum
  rw [Bool.or_eq_true, Bool.or_eq_true, isAlpha_iff, isDigit_iff, beq_iff_eq, or_assoc]

theorem isName_iff {name : String} : isName name = true ↔ IsIdentifier name := by
  unfold isName IsIdentifier
  cases name.toList with
  | nil => simp
  | cons c cs =>
    rw [Bool.and_eq_true, isNameStart_iff, List.all_eq_true]
    simp only [isNamePart_iff, List.cons.injEq]
    constructor
    . intro h
      exact ⟨c, cs, ⟨rfl, rfl⟩, h.1, h.2⟩
    . intro h
      obtain ⟨_, _, ⟨rfl, rfl⟩, hstart, hparts⟩ := h
      exact ⟨hstart, hparts⟩

theorem checkName_eq_error_iff {name : String} {e : Error} :
    checkName name = .error e ↔ ¬IsIdentifier name ∧ e = .malformed (.scriptName name) := by
  unfold checkName
  rw [← isName_iff]
  split
  . next hname => simp [hname]
  . next hname =>
    rw [Except.error.injEq]
    constructor
    . intro h
      exact ⟨hname, h.symm⟩
    . intro h
      exact h.2.symm

open SchemaBuilder (textOf textOf_append toList_lines)

def front (d : Dialect) (name : String) (up : Plan) : String :=
  String.ofList (textOf (d.preamble ++ d.openScript name ++ d.procedure "up" up ++ [""]))

def back (d : Dialect) (down : Plan) : String :=
  String.ofList (textOf (d.procedure "down" down ++ d.closeScript))

theorem render_eq_append (d : Dialect) (s : Script) :
    s.render d = front d s.name s.up ++ back d s.down := by
  have hne : s.lines d ≠ [] := by simp [lines]
  rw [render_eq, ← String.toList_inj, toList_lines hne]
  unfold front back
  rw [String.toList_append, String.toList_ofList, String.toList_ofList, ← textOf_append]
  unfold lines
  simp only [List.append_assoc]

theorem exists_front (name : String) (up : Plan) :
    ∃ before, front .schemaBuilder name up = before ++ "    \x7d\n\n" := by
  have hprocedure : ∃ lines,
      Dialect.schemaBuilder.procedure "up" up ++ [""] = lines ++ ["    \x7d", ""] := by
    unfold Dialect.procedure
    rw [List.append_assoc _ _ [""]]
    exact ⟨_, rfl⟩
  obtain ⟨lines, hlines⟩ := hprocedure
  unfold front
  rw [List.append_assoc, hlines, ← List.append_assoc, textOf_append, String.ofList_append]
  exact ⟨_, rfl⟩

theorem exists_back (down : Plan) :
    ∃ behind, back .schemaBuilder down = "    public function down()\n" ++ behind := by
  have hprocedure : ∃ lines, Dialect.schemaBuilder.procedure "down" down =
      ["    public function down()"] ++ lines := ⟨_, rfl⟩
  obtain ⟨lines, hlines⟩ := hprocedure
  unfold back
  rw [hlines, List.append_assoc, textOf_append, String.ofList_append]
  exact ⟨_, rfl⟩

variable {d : Dialect} {lookup : Lookup} {options : Options} {name : String}
variable {up down : ChangeSet}

theorem generateWith_eq_ok_iff {text : String} :
    generateWith d lookup options name up down = .ok text ↔
      IsIdentifier name ∧ ∃ p q, up.compileWith lookup options = .ok p ∧
        down.compileWith lookup options = .ok q ∧ text = front d name p ++ back d q := by
  unfold generateWith
  rw [bind_eq_ok_iff]
  simp only [assembleWith_eq_ok_iff, isName_iff, Except.ok.injEq, render_eq_append]
  constructor
  . intro h
    obtain ⟨s, ⟨hname, rfl, hup, hdown⟩, rfl⟩ := h
    exact ⟨hname, s.up, s.down, hup, hdown, rfl⟩
  . intro h
    obtain ⟨hname, p, q, hup, hdown, rfl⟩ := h
    exact ⟨⟨name, p, q⟩, ⟨hname, rfl, hup, hdown⟩, rfl⟩

theorem exists_generateWith_iff :
    (∃ text, generateWith d lookup options name up down = .ok text) ↔
      IsIdentifier name ∧ (∃ p, up.compileWith lookup options = .ok p) ∧
        ∃ q, down.compileWith lookup options = .ok q := by
  simp only [generateWith_eq_ok_iff]
  constructor
  . intro h
    obtain ⟨_, hname, p, q, hup, hdown, _⟩ := h
    exact ⟨hname, ⟨p, hup⟩, q, hdown⟩
  . intro h
    obtain ⟨hname, ⟨p, hup⟩, q, hdown⟩ := h
    exact ⟨_, hname, p, q, hup, hdown, rfl⟩

theorem fault?_generateWith :
    fault? (generateWith d lookup options name up down) =
      ((fault? (checkName name)).or (fault? (up.compileWith lookup options))).or
        (fault? (down.compileWith lookup options)) := by
  unfold generateWith assembleWith
  cases checkName name with
  | error e => rfl
  | ok =>
    cases up.compileWith lookup options with
    | error e => rfl
    | ok p => cases down.compileWith lookup options <;> rfl

theorem generateWith_eq_error_iff {e : Error} :
    generateWith d lookup options name up down = .error e ↔
      (¬IsIdentifier name ∧ e = .malformed (.scriptName name)) ∨
      (IsIdentifier name ∧ up.compileWith lookup options = .error e) ∨
      (IsIdentifier name ∧ (∃ p, up.compileWith lookup options = .ok p) ∧
        down.compileWith lookup options = .error e) := by
  rw [← fault?_eq_some_iff, fault?_generateWith]
  rw [Option.or_eq_some_iff, Option.or_eq_some_iff, Option.or_eq_none_iff]
  rw [fault?_check_eq_none_iff, checkName_eq_ok_iff, isName_iff, fault?_eq_none_iff]
  rw [fault?_eq_some_iff, fault?_eq_some_iff, fault?_eq_some_iff, checkName_eq_error_iff]
  rw [or_assoc, and_assoc]

/--
The two directions of a script. There is a script if the name is an identifier and both directions
compile, and otherwise the error is that of the name, of the first direction or of the second one,
whichever comes first. Scripts with the same name and the same first direction agree up to the blank
line before the second procedure, and scripts with the same second direction agree from there to the
end, whatever the other direction is. A direction without tables, and no other, has an empty
procedure.
-/
theorem generateWith_directions :
    (∀ lookup options name (up down : ChangeSet),
      ((∃ text, generateWith .schemaBuilder lookup options name up down = .ok text) ↔
        IsIdentifier name ∧ (∃ p, up.compileWith lookup options = .ok p) ∧
          ∃ q, down.compileWith lookup options = .ok q) ∧
      ∀ e, generateWith .schemaBuilder lookup options name up down = .error e ↔
        (¬IsIdentifier name ∧ e = .malformed (.scriptName name)) ∨
        (IsIdentifier name ∧ up.compileWith lookup options = .error e) ∨
        (IsIdentifier name ∧ (∃ p, up.compileWith lookup options = .ok p) ∧
          down.compileWith lookup options = .error e)) ∧
    (∀ lookup lookup' options options' name (up down down' : ChangeSet) text text',
      (∀ c ∈ up.definedColumns, ∀ model, c.model? = some model → lookup model = lookup' model) →
      generateWith .schemaBuilder lookup options name up down = .ok text →
      generateWith .schemaBuilder lookup' options' name up down' = .ok text' →
      ∃ p q q', up.compileWith lookup options = .ok p ∧
        down.compileWith lookup options = .ok q ∧ down'.compileWith lookup' options' = .ok q' ∧
        text = front .schemaBuilder name p ++ back .schemaBuilder q ∧
        text' = front .schemaBuilder name p ++ back .schemaBuilder q') ∧
    (∀ lookup lookup' options options' name name' (up up' down : ChangeSet) text text',
      (∀ c ∈ down.definedColumns, ∀ model, c.model? = some model → lookup model = lookup' model) →
      generateWith .schemaBuilder lookup options name up down = .ok text →
      generateWith .schemaBuilder lookup' options' name' up' down = .ok text' →
      ∃ p p' q, up.compileWith lookup options = .ok p ∧
        up'.compileWith lookup' options' = .ok p' ∧ down.compileWith lookup options = .ok q ∧
        text = front .schemaBuilder name p ++ back .schemaBuilder q ∧
        text' = front .schemaBuilder name' p' ++ back .schemaBuilder q) ∧
    (∀ name p, ∃ before, front .schemaBuilder name p = before ++ "    \x7d\n\n") ∧
    (∀ q, ∃ behind, back .schemaBuilder q = "    public function down()\n" ++ behind) ∧
    ∀ lookup options (cs : ChangeSet),
      (cs.isEmpty = true → ∃ p, cs.compileWith lookup options = .ok p) ∧
      ∀ p, cs.compileWith lookup options = .ok p →
        (p.lines = [] ↔ cs.isEmpty = true) ∧
        (cs.isEmpty = true → ∀ direction,
          Dialect.schemaBuilder.procedure direction p =
            ["    public function " ++ direction ++ "()", "    \x7b", "    \x7d"]) := by
  refine ⟨?_, ?_, ?_, exists_front, exists_back, ?_⟩
  . intro lookup options name up down
    exact ⟨exists_generateWith_iff, fun e => generateWith_eq_error_iff⟩
  . intro lookup lookup' options options' name up down down' text text' hmodels h h'
    obtain ⟨_, p, q, hup, hdown, htext⟩ := generateWith_eq_ok_iff.mp h
    obtain ⟨_, p', q', hup', hdown', htext'⟩ := generateWith_eq_ok_iff.mp h'
    obtain rfl := ChangeSet.plan_unique hmodels hup hup'
    exact ⟨p, q, q', hup, hdown, hdown', htext, htext'⟩
  . intro lookup lookup' options options' name name' up up' down text text' hmodels h h'
    obtain ⟨_, p, q, hup, hdown, htext⟩ := generateWith_eq_ok_iff.mp h
    obtain ⟨_, p', q', hup', hdown', htext'⟩ := generateWith_eq_ok_iff.mp h'
    obtain rfl := ChangeSet.plan_unique hmodels hdown hdown'
    exact ⟨p, p', q, hup, hup', hdown, htext, htext'⟩
  . intro lookup options cs
    refine ⟨ChangeSet.exists_compileWith_of_isEmpty, ?_⟩
    intro p hp
    have hlines := ChangeSet.lines_eq_nil_iff hp
    refine ⟨hlines, ?_⟩
    intro hempty direction
    exact Dialect.procedure_of_lines (hlines.mpr hempty) direction

end Script

def blogReversal : ChangeSet where
  deleted := some ⟨[("tags", { connection := "main" })]⟩

-- The registries differ in the team, which plays no part, and the options in what they allow.
theorem blogScripts_directions :
    Script.IsIdentifier "_Blog2024" ∧
    (∃ p q q' text text',
      blogChanges.compileWith blogRegistry.lookup {} = .ok p ∧
      Script.generateWith .schemaBuilder blogRegistry.lookup {} "_Blog2024" blogChanges .empty =
        .ok text ∧
      Script.generateWith .schemaBuilder (blogRegistry.register "Team" ⟨"teams", "id"⟩).lookup ⟨true⟩
        "_Blog2024" blogChanges blogReversal = .ok text' ∧
      text = Script.front .schemaBuilder "_Blog2024" p ++ Script.back .schemaBuilder q ∧
      text' = Script.front .schemaBuilder "_Blog2024" p ++ Script.back .schemaBuilder q' ∧
      Dialect.schemaBuilder.procedure "down" q =
        ["    public function down()", "    \x7b", "    \x7d"]) ∧
    ∃ p p' q text text',
      Script.generateWith .schemaBuilder blogRegistry.lookup {} "_Blog2024" blogReversal
        blogChanges = .ok text ∧
      Script.generateWith .schemaBuilder (blogRegistry.register "Team" ⟨"teams", "id"⟩).lookup ⟨true⟩
        "_Blog2025" .empty blogChanges = .ok text' ∧
      text = Script.front .schemaBuilder "_Blog2024" p ++ Script.back .schemaBuilder q ∧
      text' = Script.front .schemaBuilder "_Blog2025" p' ++ Script.back .schemaBuilder q := by
  obtain ⟨outcome, sameUp, sameDown, _, _, empty⟩ := Script.generateWith_directions
  have hname : Script.IsIdentifier "_Blog2024" := Script.isName_iff.mp rfl
  have hname' : Script.IsIdentifier "_Blog2025" := Script.isName_iff.mp rfl
  have hmodels : ∀ c ∈ blogChanges.definedColumns, ∀ model, c.model? = some model →
      blogRegistry.lookup model =
        (blogRegistry.register "Team" ⟨"teams", "id"⟩).lookup model := by
    intro c hc model hmodel
    rw [model_of_blogChanges hc hmodel]
    rfl
  refine ⟨hname, ?_, ?_⟩
  . obtain ⟨text, htext⟩ :=
      (outcome blogRegistry.lookup {} "_Blog2024" blogChanges .empty).1.mpr
        ⟨hname, ⟨_, rfl⟩, _, rfl⟩
    obtain ⟨text', htext'⟩ :=
      (outcome (blogRegistry.register "Team" ⟨"teams", "id"⟩).lookup ⟨true⟩ "_Blog2024" blogChanges
        blogReversal).1.mpr ⟨hname, ⟨_, rfl⟩, _, rfl⟩
    obtain ⟨p, q, q', hp, hq, _, hcut, hcut'⟩ :=
      sameUp _ _ _ _ _ _ _ _ _ _ hmodels htext htext'
    have hprocedure := ((empty _ _ .empty).2 q hq).2 rfl "down"
    exact ⟨p, q, q', text, text', hp, htext, htext', hcut, hcut', hprocedure⟩
  . obtain ⟨text, htext⟩ :=
      (outcome blogRegistry.lookup {} "_Blog2024" blogReversal blogChanges).1.mpr
        ⟨hname, ⟨_, rfl⟩, _, rfl⟩
    obtain ⟨text', htext'⟩ :=
      (outcome (blogRegistry.register "Team" ⟨"teams", "id"⟩).lookup ⟨true⟩ "_Blog2025" .empty
        blogChanges).1.mpr ⟨hname', ⟨_, rfl⟩, _, rfl⟩
    obtain ⟨p, p', q, _, _, _, hcut, hcut'⟩ := sameDown _ _ _ _ _ _ _ _ _ _ _ hmodels htext htext'
    exact ⟨p, p', q, text, text', htext, htext', hcut, hcut'⟩

end SchemaMigration
