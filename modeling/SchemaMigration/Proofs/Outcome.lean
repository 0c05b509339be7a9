import SchemaMigration.Proofs.Compile

/-!
This module contains the outcome of compilation. A change set compiles if it is valid, none of its
defined columns has two defaults that it must not have, and all their models are registered. If it
does not compile, these three are looked at in this order, and the first fault is the error.
-/

namespace SchemaMigration

structure DefinedColumn where
  table : String
  name : String
  definition : ColumnDef

-- The columns of created and of updated tables, table by table, the created ones of a table first.
def ChangeSet.definedColumns (cs : ChangeSet) : List DefinedColumn :=
  cs.keptTables.flatMap fun (table, t) => t.columnDefs.map fun (name, c) => ⟨table, name, c⟩

namespace DefinedColumn

def hasTwoDefaults (c : DefinedColumn) : Bool :=
  c.definition.literalDefault.isSome && c.definition.rawDefault.isSome

def model? (c : DefinedColumn) : Option String :=
  c.definition.belongsTo.map (·.model)

def lacksEntity (registry : Registry) (c : DefinedColumn) : Bool :=
  c.model?.any fun model => (registry.entities.get? model).isNone

end DefinedColumn

theorem fault?_lookup (registry : Registry) (model : String) :
    fault? (registry.lookup model) =
      if (registry.entities.get? model).isNone then some (.unknownModel model) else none := by
  unfold Registry.lookup
  cases registry.entities.get? model <;> rfl

theorem DefinedColumn.bind_fault?_lookup (registry : Registry) (c : DefinedColumn) :
    (c.definition.belongsTo.bind fun r => fault? (registry.lookup r.model)) =
      if c.lacksEntity registry then c.model?.map .unknownModel else none := by
  unfold lacksEntity model?
  cases c.definition.belongsTo with
  | none => rfl
  | some r => exact fault?_lookup registry r.model

theorem findSome?_ite {α β : Type} {p : α → Bool} {f : α → Option β}
    (h : ∀ x, p x = true → (f x).isSome) (xs : List α) :
    (xs.findSome? fun x => if p x then f x else none) = (xs.find? p).bind f := by
  induction xs with
  | nil => rfl
  | cons x xs ih =>
    rw [List.findSome?_cons, List.find?_cons]
    cases hp : p x with
    | false => exact ih
    | true =>
      obtain ⟨y, hy⟩ := Option.isSome_iff_exists.mp (h x hp)
      simp [hy]

namespace ChangeSet

variable {options : Options} {registry : Registry} {cs : ChangeSet}

theorem ambiguousColumns_eq (cs : ChangeSet) :
    cs.ambiguousColumns =
      (cs.definedColumns.filter (·.hasTwoDefaults)).map fun c => (c.table, c.name) := by
  unfold ambiguousColumns definedColumns
  rw [List.filter_flatMap, List.map_flatMap]
  apply List.flatMap_congr
  intro entry _
  rw [List.filter_map, List.map_map]
  rfl

theorem relations_keptTables_eq (cs : ChangeSet) :
    (cs.keptTables.flatMap fun entry => entry.2.relations) =
      cs.definedColumns.filterMap fun c => c.definition.belongsTo := by
  unfold definedColumns
  rw [List.filterMap_flatMap]
  apply List.flatMap_congr
  intro entry _
  rw [List.filterMap_map]
  rfl

theorem fault?_checkDefaults :
    fault? (cs.checkDefaults options) =
      if options.allowAmbiguousDefaults then
        none
      else
        (cs.definedColumns.find? (·.hasTwoDefaults)).map fun c =>
          .ambiguousDefault c.table c.name := by
  unfold checkDefaults
  split
  . rfl
  . rw [← List.head?_filter]
    rw [ambiguousColumns_eq]
    cases cs.definedColumns.filter (·.hasTwoDefaults) <;> rfl

theorem fault?_relationshipGroups_registry :
    fault? (cs.relationshipGroups registry.lookup) =
      (cs.definedColumns.find? (·.lacksEntity registry)).bind fun c =>
        c.model?.map .unknownModel := by
  rw [fault?_relationshipGroups]
  rw [relations_keptTables_eq]
  rw [findSome?_filterMap]
  simp only [DefinedColumn.bind_fault?_lookup]
  apply findSome?_ite
  intro c hc
  unfold DefinedColumn.lacksEntity at hc
  cases hmodel : c.model? <;> simp_all

def DefaultsAllowed (options : Options) (cs : ChangeSet) : Prop :=
  options.allowAmbiguousDefaults = true ∨ ∀ c ∈ cs.definedColumns, c.hasTwoDefaults = false

def ModelsKnown (registry : Registry) (cs : ChangeSet) : Prop :=
  ∀ c ∈ cs.definedColumns, ∀ model, c.model? = some model →
    ∃ entity, registry.entities.get? model = some entity

theorem defaultsAllowed_iff :
    cs.DefaultsAllowed options ↔
      options.allowAmbiguousDefaults = true ∨
      cs.definedColumns.find? (·.hasTwoDefaults) = none := by
  unfold DefaultsAllowed
  rw [List.find?_eq_none]
  simp only [Bool.not_eq_true]

theorem modelsKnown_iff :
    cs.ModelsKnown registry ↔ cs.definedColumns.find? (·.lacksEntity registry) = none := by
  unfold ModelsKnown DefinedColumn.lacksEntity
  rw [List.find?_eq_none]
  apply forall₂_congr
  intro c _
  cases c.model? <;> simp [Option.ne_none_iff_exists']

theorem fault?_checkDefaults_eq_none_iff :
    fault? (cs.checkDefaults options) = none ↔ cs.DefaultsAllowed options := by
  rw [fault?_checkDefaults, defaultsAllowed_iff]
  cases options.allowAmbiguousDefaults <;> simp

theorem fault?_checkDefaults_eq_some_iff {e : Error} :
    fault? (cs.checkDefaults options) = some e ↔
      options.allowAmbiguousDefaults = false ∧
      ∃ c, cs.definedColumns.find? (·.hasTwoDefaults) = some c ∧
        e = .ambiguousDefault c.table c.name := by
  rw [fault?_checkDefaults]
  cases options.allowAmbiguousDefaults <;> simp [@eq_comm _ e]

theorem fault?_relationshipGroups_eq_none_iff :
    fault? (cs.relationshipGroups registry.lookup) = none ↔ cs.ModelsKnown registry := by
  rw [fault?_relationshipGroups_registry, modelsKnown_iff]
  cases hfind : cs.definedColumns.find? (·.lacksEntity registry) with
  | none => simp
  | some c =>
    -- A column that lacks an entity has a model.
    have hlacks : c.lacksEntity registry = true := by
      have hp := List.find?_some hfind
      exact hp
    obtain ⟨model, hmodel, _⟩ := (Option.any_eq_true _ _).mp hlacks
    simp [hmodel]

theorem fault?_relationshipGroups_eq_some_iff {e : Error} :
    fault? (cs.relationshipGroups registry.lookup) = some e ↔
      ∃ c model, cs.definedColumns.find? (·.lacksEntity registry) = some c ∧
        c.model? = some model ∧ e = .unknownModel model := by
  rw [fault?_relationshipGroups_registry]
  simp [Option.bind_eq_some_iff, @eq_comm _ e]

theorem compile_eq_ok_iff :
    (∃ plan, cs.compile registry options = .ok plan) ↔
      cs.validate = .ok () ∧ cs.DefaultsAllowed options ∧ cs.ModelsKnown registry := by
  unfold compile
  rw [← fault?_eq_none_iff, fault?_compileWith]
  rw [Option.or_eq_none_iff, Option.or_eq_none_iff]
  rw [fault?_check_eq_none_iff, fault?_checkDefaults_eq_none_iff]
  rw [fault?_relationshipGroups_eq_none_iff]

theorem compile_eq_error_iff {e : Error} :
    cs.compile registry options = .error e ↔
      cs.validate = .error e ∨
      (cs.validate = .ok () ∧ options.allowAmbiguousDefaults = false ∧
        ∃ c, cs.definedColumns.find? (·.hasTwoDefaults) = some c ∧
          e = .ambiguousDefault c.table c.name) ∨
      (cs.validate = .ok () ∧ cs.DefaultsAllowed options ∧
        ∃ c model, cs.definedColumns.find? (·.lacksEntity registry) = some c ∧
          c.model? = some model ∧ e = .unknownModel model) := by
  unfold compile
  rw [← fault?_eq_some_iff, fault?_compileWith]
  rw [Option.or_eq_some_iff, Option.or_eq_some_iff]
  rw [fault?_eq_some_iff, fault?_check_eq_none_iff, and_or_left]
  rw [fault?_checkDefaults_eq_none_iff, fault?_checkDefaults_eq_some_iff]
  rw [fault?_relationshipGroups_eq_some_iff]

-- Models that no defined column belongs to play no part, those of deleted columns among them.
theorem compileWith_congr_models {lookup lookup' : Lookup}
    (h : ∀ c ∈ cs.definedColumns, ∀ model, c.model? = some model → lookup model = lookup' model) :
    cs.compileWith lookup options = cs.compileWith lookup' options := by
  apply compileWith_congr
  intro entry hentry r hr
  have hmem : r ∈ cs.keptTables.flatMap fun entry => entry.2.relations :=
    List.mem_flatMap.mpr ⟨entry, hentry, hr⟩
  rw [relations_keptTables_eq] at hmem
  obtain ⟨c, hc, hrelation⟩ := List.mem_filterMap.mp hmem
  apply h c hc
  unfold DefinedColumn.model?
  rw [hrelation]
  rfl

theorem compile_congr {registry' : Registry}
    (h : ∀ c ∈ cs.definedColumns, ∀ model, c.model? = some model →
      registry'.entities.get? model = registry.entities.get? model) :
    cs.compile registry' options = cs.compile registry options := by
  unfold compile
  apply compileWith_congr_models
  intro c hc model hmodel
  unfold Registry.lookup
  rw [h c hc model hmodel]

/--
The outcome of compilation: when it succeeds, what the error is if it does not, and that entities
which no defined column belongs to make no difference.
-/
theorem compile_outcome (registry : Registry) (options : Options) (cs : ChangeSet) :
    ((∃ plan, cs.compile registry options = .ok plan) ↔
      cs.validate = .ok () ∧ cs.DefaultsAllowed options ∧ cs.ModelsKnown registry) ∧
    (∀ e, cs.compile registry options = .error e ↔
      cs.validate = .error e ∨
      (cs.validate = .ok () ∧ options.allowAmbiguousDefaults = false ∧
        ∃ c, cs.definedColumns.find? (·.hasTwoDefaults) = some c ∧
          e = .ambiguousDefault c.table c.name) ∨
      (cs.validate = .ok () ∧ cs.DefaultsAllowed options ∧
        ∃ c model, cs.definedColumns.find? (·.lacksEntity registry) = some c ∧
          c.model? = some model ∧ e = .unknownModel model)) ∧
    ∀ registry' : Registry,
      (∀ c ∈ cs.definedColumns, ∀ model, c.model? = some model →
        registry'.entities.get? model = registry.entities.get? model) →
      cs.compile registry' options = cs.compile registry options :=
  ⟨compile_eq_ok_iff, fun _ => compile_eq_error_iff, fun _ => compile_congr⟩

end ChangeSet

-- The model of the deleted column is looked up neither here nor there, that of the others is.
theorem blogChanges_outcome :
    blogChanges.compile (blogRegistry.register "Team" ⟨"teams", "id"⟩) {} =
      blogChanges.compile blogRegistry {} ∧
    blogChanges.compile .empty {} = .error (.unknownModel "User") := by
  constructor
  . apply (ChangeSet.compile_outcome blogRegistry {} blogChanges).2.2
    intro c hc model hmodel
    have hall : ∀ c ∈ blogChanges.definedColumns, c.model? = none ∨ c.model? = some "User" := by
      decide
    cases hall c hc with
    | inl hnone => simp [hnone] at hmodel
    | inr huser =>
      rw [huser, Option.some.injEq] at hmodel
      rw [← hmodel]
      rfl
  . apply ((ChangeSet.compile_outcome .empty {} blogChanges).2.1 _).mpr
    exact Or.inr (Or.inr ⟨rfl, Or.inr (by decide), _, "User", rfl, rfl, rfl⟩)

end SchemaMigration
