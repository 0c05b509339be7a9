import SchemaMigration.Compile.Basic
import SchemaMigration.Proofs.Sequence

/-!
This module contains what the parts of compilation come to: the groups that add foreign keys, the
plan of a change set that compiles, and the fault of one that does not.
-/

namespace SchemaMigration

variable {lookup : Lookup} {options : Options}

theorem Relation.resolve_eq_ok_iff {r : Relation} {key : ForeignKey} :
    r.resolve lookup = .ok key ↔
      ∃ entity, lookup r.model = .ok entity ∧
        key = ⟨r.foreignKey, entity.primaryKey, entity.table⟩ := by
  unfold resolve
  rw [bind_eq_ok_iff]
  simp [eq_comm]

theorem Relation.fault?_resolve (r : Relation) :
    fault? (r.resolve lookup) = fault? (lookup r.model) := by
  unfold resolve
  apply fault?_bind_ok

namespace TableChange

variable {t : TableChange} {name : String}

theorem relationshipGroup_eq_ok_iff {group : Group} :
    t.relationshipGroup lookup name = .ok group ↔
      ∃ keys, List.Forall₂ (fun r key => r.resolve lookup = .ok key) t.relations keys ∧
        group = .alterTable ⟨t.connection, name, keys.map .foreign⟩ := by
  unfold relationshipGroup
  rw [bind_eq_ok_iff]
  simp only [mapM_eq_ok_iff, Except.ok.injEq, @eq_comm _ _ group]

theorem fault?_relationshipGroup :
    fault? (t.relationshipGroup lookup name) =
      t.relations.findSome? fun r => fault? (lookup r.model) := by
  unfold relationshipGroup
  rw [fault?_bind_ok]
  rw [fault?_mapM]
  simp only [Relation.fault?_resolve]

theorem relationshipGroup_congr {lookup' : Lookup}
    (h : ∀ r ∈ t.relations, lookup r.model = lookup' r.model) :
    t.relationshipGroup lookup name = t.relationshipGroup lookup' name := by
  unfold relationshipGroup
  rw [mapM_congr]
  intro r hr
  unfold Relation.resolve
  rw [h r hr]

end TableChange

namespace ChangeSet

variable {cs : ChangeSet} {plan : Plan}

theorem relationshipGroups_eq_ok_iff {groups : List Group} :
    cs.relationshipGroups lookup = .ok groups ↔
      ∃ keyGroups,
        List.Forall₂ (fun entry group => entry.2.relationshipGroup lookup entry.1 = .ok group)
          cs.relatedTables keyGroups ∧
        groups = if keyGroups.isEmpty then [] else .comment keysComment :: keyGroups := by
  unfold relationshipGroups
  rw [bind_eq_ok_iff]
  simp only [mapM_eq_ok_iff, Except.ok.injEq, @eq_comm _ _ groups]

theorem flatMap_relations_relatedTables :
    cs.relatedTables.flatMap (fun entry => entry.2.relations) =
      cs.keptTables.flatMap fun entry => entry.2.relations := by
  unfold relatedTables
  induction cs.keptTables with
  | nil => rfl
  | cons entry tables ih =>
    rw [List.flatMap_cons]
    by_cases hnone : entry.2.relations = []
    . rw [List.filter_cons_of_neg (by simp [hnone])]
      rw [ih, hnone]
      rfl
    . rw [List.filter_cons_of_pos (by simp [hnone])]
      rw [List.flatMap_cons, ih]

theorem fault?_relationshipGroups :
    fault? (cs.relationshipGroups lookup) =
      (cs.keptTables.flatMap fun entry => entry.2.relations).findSome? fun r =>
        fault? (lookup r.model) := by
  unfold relationshipGroups
  rw [fault?_bind_ok]
  rw [fault?_mapM]
  rw [← flatMap_relations_relatedTables]
  rw [findSome?_flatMap]
  simp only [TableChange.fault?_relationshipGroup]

theorem compileWith_eq_ok_iff :
    cs.compileWith lookup options = .ok plan ↔
      cs.validate = .ok () ∧ cs.checkDefaults options = .ok () ∧
      ∃ groups, cs.relationshipGroups lookup = .ok groups ∧
        plan = ⟨(cs.passes groups).filter fun pass => !pass.groups.isEmpty⟩ := by
  unfold compileWith
  rw [check_bind_eq_ok_iff, check_bind_eq_ok_iff]
  rw [bind_eq_ok_iff]
  simp only [Except.ok.injEq, @eq_comm _ _ plan]

theorem fault?_compileWith :
    fault? (cs.compileWith lookup options) =
      (fault? cs.validate).or
        ((fault? (cs.checkDefaults options)).or (fault? (cs.relationshipGroups lookup))) := by
  unfold compileWith
  rw [fault?_check_bind, fault?_check_bind]
  rw [fault?_bind_ok]

theorem compileWith_congr {lookup' : Lookup}
    (h : ∀ entry ∈ cs.keptTables, ∀ r ∈ entry.2.relations, lookup r.model = lookup' r.model) :
    cs.compileWith lookup options = cs.compileWith lookup' options := by
  unfold compileWith relationshipGroups
  rw [mapM_congr]
  intro entry hentry
  apply TableChange.relationshipGroup_congr
  apply h
  exact List.mem_of_mem_filter hentry

theorem groups_filter_passes (passes : List Pass) :
    (⟨passes.filter fun pass => !pass.groups.isEmpty⟩ : Plan).groups =
      passes.flatMap (·.groups) := by
  unfold Plan.groups
  induction passes with
  | nil => rfl
  | cons pass passes ih =>
    rw [List.flatMap_cons, ← ih]
    by_cases hnone : pass.groups = []
    . rw [List.filter_cons_of_neg (by simp [hnone])]
      rw [hnone]
      rfl
    . rw [List.filter_cons_of_pos (by simp [hnone])]
      rfl

theorem groups_of_compileWith (h : cs.compileWith lookup options = .ok plan) :
    ∃ groups, cs.relationshipGroups lookup = .ok groups ∧
      plan.groups = cs.creationGroups ++ cs.updateGroups ++ groups ++ cs.deletionGroups := by
  obtain ⟨_, _, groups, hgroups, hplan⟩ := compileWith_eq_ok_iff.mp h
  refine ⟨groups, hgroups, ?_⟩
  rw [hplan]
  rw [groups_filter_passes]
  simp [passes]

end ChangeSet

-- A change set with every kind of change, on three connections.
def blogChanges : ChangeSet where
  created := some ⟨[
    ("tags", {
      connection := "main"
      created := some ⟨[
        ("id", { type := "increments" }),
        ("owner", { type := "integer", belongsTo := some ⟨"owner_id", "User"⟩ })]⟩ })]⟩
  updated := some ⟨[
    ("posts", {
      connection := "blog"
      created := some ⟨[("slug", { type := "string", unique := some (.bool true) })]⟩
      updated := some ⟨[
        ("title", { type := "text" }),
        ("author_id", { type := "integer", belongsTo := some ⟨"author_id", "User"⟩ })]⟩
      deleted := some ⟨[("team_id", ⟨some ⟨"team_id", "Team"⟩⟩), ("draft", ⟨none⟩)]⟩ })]⟩
  deleted := some ⟨[("logs", { connection := "audit" })]⟩

def blogRegistry : Registry := .ofList [("User", ⟨"users", "id"⟩)]

theorem exists_blogPlan : ∃ plan, blogChanges.compileWith blogRegistry.lookup {} = .ok plan :=
  ⟨_, rfl⟩

end SchemaMigration
