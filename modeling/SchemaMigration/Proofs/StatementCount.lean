import SchemaMigration.Proofs.KeyAccounting
import Mathlib.Algebra.Ring.Nat

/-!
This module contains the number of statements in a plan, as it follows from the change set: which
columns and tables it names, and which of the columns have relations. A group without a table has no
statements.
-/

namespace SchemaMigration

def relationCount {α : Type} (relation : α → Option Relation) (columns : List (String × α)) : Nat :=
  columns.countP fun column => (relation column.2).isSome

namespace TableChange

variable (t : TableChange)

def alterationCount : Nat :=
  (bucketEntries t.created).length + (bucketEntries t.updated).length
    + (bucketEntries t.deleted).length
    + 3 * (relationCount ColumnDef.belongsTo (bucketEntries t.updated)
      + relationCount ColumnDrop.belongsTo (bucketEntries t.deleted))

def keyCount : Nat := relationCount ColumnDef.belongsTo t.columnDefs

end TableChange

def ChangeSet.statementCount (cs : ChangeSet) : Nat :=
  ((cs.tables .created).map fun entry => (bucketEntries entry.2.created).length).sum
    + ((cs.tables .updated).map fun entry => entry.2.alterationCount).sum
    + (cs.keptTables.map fun entry => entry.2.keyCount).sum
    + 3 * (cs.tables .deleted).length

theorem Relation.length_dropKey (relation : Option Relation) (connection : String) :
    (dropKey relation connection).length = if relation.isSome then 3 else 0 := by
  cases relation <;> rfl

theorem length_flatMap_dropKey {α : Type} (relation : α → Option Relation) (connection : String)
    (statement : String × α → Statement) (columns : List (String × α)) :
    (columns.flatMap fun column =>
      Relation.dropKey (relation column.2) connection ++ [statement column]).length =
      columns.length + 3 * relationCount relation columns := by
  unfold relationCount
  induction columns with
  | nil => rfl
  | cons column columns ih =>
    rw [List.flatMap_cons, List.length_append, ih]
    rw [List.length_append, Relation.length_dropKey, List.length_singleton]
    rw [List.length_cons, List.countP_cons]
    split <;> omega

namespace TableChange

theorem length_statements (t : TableChange) : t.statements.length = t.alterationCount := by
  have hupdated := length_flatMap_dropKey ColumnDef.belongsTo t.connection
    (fun column => .column (column.2.call column.1 true)) (bucketEntries t.updated)
  have hdeleted := length_flatMap_dropKey ColumnDrop.belongsTo t.connection
    (fun column => .dropColumn column.1) (bucketEntries t.deleted)
  unfold statements alterationCount ColumnDef.update ColumnDrop.deletion
  rw [List.length_append, List.length_append, List.length_map]
  rw [hupdated, hdeleted]
  omega

theorem length_statements_of_only_created {t : TableChange}
    (h : t.updated = none ∧ t.deleted = none) :
    t.statements.length = (bucketEntries t.created).length := by
  rw [statements_of_only_created h, List.length_map]

theorem keyCount_eq_zero {t : TableChange} (h : t.hasRelations = false) : t.keyCount = 0 := by
  unfold hasRelations at h
  rw [List.any_eq_false] at h
  exact List.countP_eq_zero.mpr h

end TableChange

theorem sum_map_filter {α : Type} {p : α → Bool} {f : α → Nat} {xs : List α}
    (h : ∀ x ∈ xs, p x = false → f x = 0) : ((xs.filter p).map f).sum = (xs.map f).sum := by
  induction xs with
  | nil => rfl
  | cons x xs ih =>
    rw [List.forall_mem_cons] at h
    rw [List.map_cons, List.sum_cons, ← ih h.2]
    cases hx : p x with
    | false =>
      rw [List.filter_cons_of_neg (by simp [hx]), h.1 hx]
      exact (Nat.zero_add _).symm
    | true => rw [List.filter_cons_of_pos hx, List.map_cons, List.sum_cons]

theorem Plan.statementCount_eq_sum (p : Plan) :
    p.statementCount = (p.groups.map Group.statementCount).sum := by
  unfold statementCount
  induction p.groups with
  | nil => rfl
  | cons group groups ih => rw [List.foldr_cons, ih, List.map_cons, List.sum_cons]

theorem Group.AddsKeys.statementCount_eq {lookup : Lookup} {entry : String × TableChange}
    {group : Group} (h : group.AddsKeys lookup entry) : group.statementCount = entry.2.keyCount := by
  obtain ⟨statements, rfl, hkeys⟩ := h
  unfold TableChange.keyCount relationCount
  rw [List.countP_eq_length_filter]
  exact hkeys.length_eq.symm

def Group.IsCounted (group : Group) : Prop := group.table?.isSome = false → group.statementCount = 0

namespace ChangeSet

variable {lookup : Lookup} {options : Options} {cs : ChangeSet} {plan : Plan}

theorem sum_creationGroups (h : cs.validate = .ok ()) :
    (cs.creationGroups.map Group.statementCount).sum =
      ((cs.tables .created).map fun entry => (bucketEntries entry.2.created).length).sum := by
  unfold creationGroups
  rw [List.map_map]
  congr 1
  apply List.map_congr_left
  intro entry hentry
  exact TableChange.length_statements_of_only_created (only_created_of_validate h hentry)

theorem sum_updateGroups (cs : ChangeSet) :
    (cs.updateGroups.map Group.statementCount).sum =
      ((cs.tables .updated).map fun entry => entry.2.alterationCount).sum := by
  unfold updateGroups
  rw [List.map_map]
  congr 1
  apply List.map_congr_left
  intro entry _
  exact entry.2.length_statements

theorem sum_deletionGroups (cs : ChangeSet) :
    (cs.deletionGroups.map Group.statementCount).sum = 3 * (cs.tables .deleted).length := by
  unfold deletionGroups
  rw [List.map_map]
  induction cs.tables .deleted with
  | nil => rfl
  | cons entry tables ih =>
    rw [List.map_cons, List.sum_cons, ih, List.length_cons]
    exact (Nat.add_comm _ _).trans (Nat.mul_succ _ _).symm

theorem sum_relationshipGroups {groups : List Group} (h : cs.relationshipGroups lookup = .ok groups) :
    (groups.map Group.statementCount).sum = (cs.keptTables.map fun entry => entry.2.keyCount).sum := by
  have hnone : ∀ entry ∈ cs.keptTables, entry.2.hasRelations = false → entry.2.keyCount = 0 :=
    fun entry _ => TableChange.keyCount_eq_zero
  rw [← sum_map_filter hnone]
  obtain ⟨rfl, hempty⟩ | ⟨keyGroups, rfl, _, hkeys⟩ := relationshipGroups_cases h
  . rw [hempty]
    rfl
  . have hcounts := map_eq_map_of_forall₂ hkeys
      fun _ _ hgroup => Eq.symm (Group.AddsKeys.statementCount_eq hgroup)
    rw [hcounts, List.map_cons, List.sum_cons]
    exact Nat.zero_add _

theorem isCounted_relationshipGroups {groups : List Group}
    (h : cs.relationshipGroups lookup = .ok groups) : ∀ group ∈ groups, group.IsCounted := by
  obtain ⟨rfl, _⟩ | ⟨keyGroups, rfl, _, hkeys⟩ := relationshipGroups_cases h
  . simp
  . rw [List.forall_mem_cons]
    constructor
    . intro _
      rfl
    . intro group hgroup hnone
      obtain ⟨entry, _, _, rfl, _⟩ := exists_of_forall₂_of_mem hkeys hgroup
      contradiction

theorem isCounted_of_compileWith (h : cs.compileWith lookup options = .ok plan) :
    ∀ group ∈ plan.groups, group.IsCounted := by
  obtain ⟨groups, hgroups, hplan⟩ := groups_of_compileWith h
  rw [hplan]
  unfold creationGroups updateGroups deletionGroups
  simp only [List.forall_mem_append, List.forall_mem_map]
  refine ⟨⟨⟨?_, ?_⟩, isCounted_relationshipGroups hgroups⟩, ?_⟩
  all_goals
    intro entry _ hnone
    contradiction

theorem statementCount_of_compileWith (h : cs.compileWith lookup options = .ok plan) :
    plan.statementCount = cs.statementCount := by
  obtain ⟨hvalid, _⟩ := compileWith_eq_ok_iff.mp h
  obtain ⟨groups, hgroups, hplan⟩ := groups_of_compileWith h
  rw [Plan.statementCount_eq_sum, hplan]
  simp only [List.map_append, List.sum_append]
  rw [sum_creationGroups hvalid, sum_updateGroups, sum_relationshipGroups hgroups,
    sum_deletionGroups]
  rfl

theorem statementCount_eq_sum_filter (h : cs.compileWith lookup options = .ok plan) :
    plan.statementCount = ((plan.groups.filter (·.table?.isSome)).map Group.statementCount).sum := by
  rw [Plan.statementCount_eq_sum, sum_map_filter (isCounted_of_compileWith h)]

end ChangeSet

end SchemaMigration
