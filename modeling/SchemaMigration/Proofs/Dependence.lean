import SchemaMigration.Proofs.KeyAccounting
import SchemaMigration.Proofs.Restriction

/-!
This module contains what the compilation of a change set depends on. Of a registry only the models
of defined columns matter. Whether two defaults are allowed only matters if a column has two; then
it decides between an error and the same plan as ever, in which both defaults stand side by side.
-/

namespace SchemaMigration

def Error.IsBreach : Error → Prop
  | .malformed _ => True
  | .conflictingTable .. => True
  | _ => False

def Breaches (check : Except Error Unit) : Prop :=
  ∀ e, check = .error e → e.IsBreach

namespace Breaches

theorem ok : Breaches (.ok ()) := by
  intro e h
  contradiction

theorem error {e : Error} (h : e.IsBreach) : Breaches (.error e) := by
  intro e' heq
  cases heq
  exact h

theorem bind {check check' : Except Error Unit} (h : Breaches check) (h' : Breaches check') :
    Breaches (check >>= fun _ => check') := by
  cases check with
  | error e => exact error (h e rfl)
  | ok => exact h'

theorem ite {condition : Prop} [Decidable condition] {check check' : Except Error Unit}
    (h : Breaches check) (h' : Breaches check') :
    Breaches (if condition then check else check') := by
  split
  . exact h
  . exact h'

theorem malformed (what : Malformation) : Breaches (.error (.malformed what)) := error trivial

theorem relation (table column : String) (relation : Option Relation) :
    Breaches (Relation.check table column relation) := by
  cases relation with
  | none => exact ok
  | some r => exact ite (malformed _) ok

theorem checkDefined (table : String) (columns : List (String × ColumnDef)) :
    Breaches (TableChange.checkDefined table columns) := by
  induction columns with
  | nil => exact ok
  | cons entry columns ih =>
    have hrest := bind (relation table entry.1 entry.2.belongsTo) ih
    exact ite (bind (malformed _) hrest) hrest

theorem checkDeleted (table : String) (columns : List (String × ColumnDrop)) :
    Breaches (TableChange.checkDeleted table columns) := by
  induction columns with
  | nil => exact ok
  | cons entry columns ih => exact bind (relation table entry.1 entry.2.belongsTo) ih

theorem checkBuckets (table : String) (bucket : Bucket) (t : TableChange) :
    Breaches (t.checkBuckets table bucket) := by
  cases bucket with
  | created => exact ite (malformed _) ok
  | updated => exact ok
  | deleted => exact ite (malformed _) ok

theorem check (table : String) (bucket : Bucket) (t : TableChange) :
    Breaches (t.check table bucket) := by
  have hcolumns := bind (checkDefined table t.columnDefs)
    (checkDeleted table (bucketEntries t.deleted))
  have hrest := bind (checkBuckets table bucket t) hcolumns
  exact ite (bind (malformed _) hrest) hrest

theorem checkTables (seen : List (String × Bucket))
    (tables : List (Bucket × String × TableChange)) :
    Breaches (ChangeSet.checkTables seen tables) := by
  induction tables generalizing seen with
  | nil => exact ok
  | cons entry tables ih =>
    obtain ⟨bucket, table, t⟩ := entry
    unfold ChangeSet.checkTables
    split
    . exact error trivial
    . exact bind (check table bucket t) (ih _)

theorem validate (cs : ChangeSet) : Breaches cs.validate := checkTables [] cs.allTables

end Breaches

theorem Registry.lookup_ne_ambiguousDefault (registry : Registry) (model table column : String) :
    registry.lookup model ≠ .error (.ambiguousDefault table column) := by
  unfold lookup
  split <;> simp

def ColumnCall.HasDefaults (call : ColumnCall) (value : Json) (expression : String) : Prop :=
  ∃ before after,
    call.modifiers = before ++ [⟨"default", .literal value⟩, ⟨"default", .raw expression⟩] ++ after ∧
    ∀ m ∈ before ++ after, m.method ≠ "default"

def modifiersOf (rows : List (String × Option Argument)) : List Modifier :=
  rows.filterMap fun (method, arg) => arg.map fun arg => ⟨method, arg⟩

theorem modifiersOf_append (rows rows' : List (String × Option Argument)) :
    modifiersOf (rows ++ rows') = modifiersOf rows ++ modifiersOf rows' :=
  List.filterMap_append

theorem method_mem_of_modifiersOf {rows : List (String × Option Argument)} {m : Modifier}
    (h : m ∈ modifiersOf rows) : m.method ∈ rows.map (·.1) := by
  obtain ⟨row, hrow, hm⟩ := List.mem_filterMap.mp h
  obtain ⟨arg, _, rfl⟩ := Option.map_eq_some_iff.mp hm
  exact List.mem_map_of_mem hrow

theorem ColumnDef.hasDefaults_call {c : ColumnDef} {value : Json} {expression : String}
    (hliteral : c.literalDefault = some value) (hraw : c.rawDefault = some expression)
    (declared : String) (change : Bool) :
    (c.call declared change).HasDefaults value expression := by
  have hrows : c.modifiers = modifiersOf (
      [("index", c.index.map .literal), ("unique", c.unique.map .literal)] ++
      [("default", c.literalDefault.map .literal), ("default", c.rawDefault.map .raw)] ++
      [("primary", c.primary.map .literal), ("unsigned", c.unsigned.map .literal),
        ("nullable", c.nullable.map .literal), ("useCurrent", c.useCurrent.map fun _ => .none)]) :=
    rfl
  rw [modifiersOf_append, modifiersOf_append, hliteral, hraw] at hrows
  refine ⟨_, _, hrows, ?_⟩
  intro m hm hdefault
  rw [← modifiersOf_append] at hm
  have hmethod := method_mem_of_modifiersOf hm
  rw [hdefault] at hmethod
  simp at hmethod

theorem TableChange.exists_column {t : TableChange} {column : String × ColumnDef}
    (h : column ∈ t.columnDefs) :
    ∃ change, .column (column.2.call column.1 change) ∈ t.statements := by
  unfold columnDefs at h
  unfold statements
  simp only [List.mem_append, List.mem_map, List.mem_flatMap] at h ⊢
  cases h with
  | inl hcreated => exact ⟨false, .inl (.inl ⟨column, hcreated, rfl⟩)⟩
  | inr hupdated =>
    refine ⟨true, .inl (.inr ⟨column, hupdated, ?_⟩)⟩
    exact List.mem_append_right _ (List.mem_singleton_self _)

namespace ChangeSet

variable {cs : ChangeSet} {lookup lookup' : Lookup} {options options' : Options} {plan : Plan}

theorem checkDefaults_eq_ok_iff : cs.checkDefaults options = .ok () ↔ cs.DefaultsAllowed options := by
  rw [← fault?_check_eq_none_iff]
  exact fault?_checkDefaults_eq_none_iff

-- With or without them allowed, two defaults are nothing to speak of if no column has them.
theorem compileWith_congr_options (h : ∀ c ∈ cs.definedColumns, c.hasTwoDefaults = false) :
    cs.compileWith lookup options = cs.compileWith lookup options' := by
  unfold compileWith
  rw [checkDefaults_eq_ok_iff.mpr (.inr h), checkDefaults_eq_ok_iff.mpr (.inr h)]

theorem compileWith_of_allowed (h : cs.compileWith lookup options = .ok plan)
    (hallow : options'.allowAmbiguousDefaults = true) :
    cs.compileWith lookup options' = .ok plan := by
  rw [compileWith_eq_ok_iff] at h ⊢
  obtain ⟨hvalid, _, hgroups⟩ := h
  exact ⟨hvalid, checkDefaults_eq_ok_iff.mpr (.inl hallow), hgroups⟩

theorem fault_of_allowed {e : Error} (h : cs.compileWith lookup options = .error e)
    (hallow : options.allowAmbiguousDefaults = true) :
    e.IsBreach ∨ ∃ model, lookup model = .error e := by
  rw [← fault?_eq_some_iff, fault?_compileWith, Option.or_eq_some_iff, fault?_eq_some_iff] at h
  cases h with
  | inl hbreach => exact .inl (Breaches.validate cs e hbreach)
  | inr hrest =>
    right
    rw [checkDefaults_eq_ok_iff.mpr (.inl hallow), fault?_ok, Option.none_or] at hrest
    rw [fault?_relationshipGroups] at hrest
    obtain ⟨r, _, hfault⟩ := List.exists_of_findSome?_eq_some hrest.2
    exact ⟨r.model, fault?_eq_some_iff.mp hfault⟩

theorem exists_block (h : cs.compileWith lookup options = .ok plan) {c : DefinedColumn}
    (hc : c ∈ cs.definedColumns) :
    ∃ block ∈ plan.blocks, block.table = c.table ∧
      ∃ change, .column (c.definition.call c.name change) ∈ block.statements := by
  obtain ⟨entry, hentry, column, hcolumn, rfl⟩ := mem_definedColumns_iff.mp hc
  obtain ⟨keyBlocks, hblocks, _⟩ := blocks_of_compileWith h
  refine ⟨tableBlock entry, ?_, rfl, TableChange.exists_column hcolumn⟩
  rw [hblocks, ← List.map_append]
  exact List.mem_append_left _ (List.mem_map_of_mem hentry)

/--
What the outcome of compilation depends on. Registries that agree on the models of defined columns
give the same outcome, be it a plan or an error. Without a column that has two defaults it does not
matter whether these are allowed; allowing them keeps every plan, is never answered with the error
that they are there, and leaves them side by side in the plan.
-/
theorem compileWith_depends (cs : ChangeSet) :
    (∀ lookup lookup' options,
      (∀ c ∈ cs.definedColumns, ∀ model, c.model? = some model → lookup model = lookup' model) →
      cs.compileWith lookup options = cs.compileWith lookup' options) ∧
    (∀ lookup, (∀ c ∈ cs.definedColumns, c.hasTwoDefaults = false) →
      cs.compileWith lookup ⟨false⟩ = cs.compileWith lookup ⟨true⟩) ∧
    (∀ lookup plan, cs.compileWith lookup ⟨false⟩ = .ok plan →
      cs.compileWith lookup ⟨true⟩ = .ok plan) ∧
    (∀ lookup, (∀ model table column, lookup model ≠ .error (.ambiguousDefault table column)) →
      ∀ table column, cs.compileWith lookup ⟨true⟩ ≠ .error (.ambiguousDefault table column)) ∧
    (∀ (registry : Registry) table column,
      cs.compile registry ⟨true⟩ ≠ .error (.ambiguousDefault table column)) ∧
    ∀ lookup plan, cs.compileWith lookup ⟨true⟩ = .ok plan →
      ∀ c ∈ cs.definedColumns, ∀ value expression, c.definition.literalDefault = some value →
        c.definition.rawDefault = some expression →
        ∃ block ∈ plan.blocks, block.table = c.table ∧
          ∃ change, .column (c.definition.call c.name change) ∈ block.statements ∧
            (c.definition.call c.name change).HasDefaults value expression := by
  have hallowed : ∀ lookup, (∀ model table column,
      lookup model ≠ .error (.ambiguousDefault table column)) → ∀ table column,
      cs.compileWith lookup ⟨true⟩ ≠ .error (.ambiguousDefault table column) := by
    intro lookup hlookup table column h
    cases fault_of_allowed h rfl with
    | inl hbreach => contradiction
    | inr hmodel =>
      obtain ⟨model, hmodel⟩ := hmodel
      exact hlookup model table column hmodel
  refine ⟨?_, ?_, ?_, hallowed, ?_, ?_⟩
  . intro lookup lookup' options h
    exact compileWith_congr_models h
  . intro lookup h
    exact compileWith_congr_options h
  . intro lookup plan h
    exact compileWith_of_allowed h rfl
  . intro registry
    exact hallowed registry.lookup registry.lookup_ne_ambiguousDefault
  . intro lookup plan h c hc value expression hliteral hraw
    obtain ⟨block, hblock, htable, change, hcolumn⟩ := exists_block h hc
    exact ⟨block, hblock, htable, change, hcolumn,
      ColumnDef.hasDefaults_call hliteral hraw c.name change⟩

end ChangeSet

def stampedColumn : ColumnDef where
  type := "timestamp"
  literalDefault := some (.string "2020-01-01")
  rawDefault := some "DB::raw('NOW()')"
  nullable := some (.bool true)

def stampedChanges : ChangeSet where
  created := some ⟨[("users", { connection := "main", created := some ⟨[("seen_at", stampedColumn)]⟩ })]⟩

theorem model_of_blogChanges {c : DefinedColumn} (hc : c ∈ blogChanges.definedColumns)
    {model : String} (hmodel : c.model? = some model) : model = "User" := by
  have hall : ∀ c ∈ blogChanges.definedColumns, c.model? = none ∨ c.model? = some "User" := by
    decide
  cases hall c hc with
  | inl hnone => simp [hnone] at hmodel
  | inr huser =>
    rw [huser, Option.some.injEq] at hmodel
    exact hmodel.symm

-- The team that a deleted column of the blog belongs to is registered on one side only.
theorem stampedChanges_depends :
    blogChanges.compileWith blogRegistry.lookup {} =
      blogChanges.compileWith (blogRegistry.register "Team" ⟨"teams", "id"⟩).lookup {} ∧
    blogChanges.compileWith blogRegistry.lookup ⟨false⟩ =
      blogChanges.compileWith blogRegistry.lookup ⟨true⟩ ∧
    (∃ plan, blogChanges.compileWith blogRegistry.lookup ⟨true⟩ = .ok plan) ∧
    stampedChanges.compileWith blogRegistry.lookup ⟨true⟩ ≠
      .error (.ambiguousDefault "users" "seen_at") ∧
    ∃ plan, stampedChanges.compileWith blogRegistry.lookup ⟨true⟩ = .ok plan ∧
      ∃ block ∈ plan.blocks, block.table = "users" ∧
        ∃ change, .column (stampedColumn.call "seen_at" change) ∈ block.statements ∧
          (stampedColumn.call "seen_at" change).HasDefaults (.string "2020-01-01")
            "DB::raw('NOW()')" := by
  obtain ⟨models, defaults, allowed, _⟩ := ChangeSet.compileWith_depends blogChanges
  obtain ⟨_, _, _, never, _, both⟩ := ChangeSet.compileWith_depends stampedChanges
  obtain ⟨plan, hplan⟩ := exists_blogPlan
  have hstamped : ∃ plan, stampedChanges.compileWith blogRegistry.lookup ⟨true⟩ = .ok plan :=
    ⟨_, rfl⟩
  obtain ⟨stampedPlan, hstampedPlan⟩ := hstamped
  have hnever := never blogRegistry.lookup blogRegistry.lookup_ne_ambiguousDefault
  refine ⟨?_, ?_, ⟨plan, allowed _ plan hplan⟩, hnever _ _, stampedPlan, hstampedPlan, ?_⟩
  . apply models
    intro c hc model hmodel
    rw [model_of_blogChanges hc hmodel]
    rfl
  . apply defaults
    decide
  . have hmem : ⟨"users", "seen_at", stampedColumn⟩ ∈ stampedChanges.definedColumns :=
      List.mem_singleton_self _
    exact both _ stampedPlan hstampedPlan _ hmem _ _ rfl rfl

end SchemaMigration
