import Mathlib.Data.List.Nodup
import SchemaMigration.ChangeSet.Validate
import SchemaMigration.Proofs.Sequence

/-!
This module contains what a change set that passes its checks is known to satisfy: no table has two
changes, and every table passes the checks of its bucket by itself.
-/

namespace SchemaMigration

def Relation.IsComplete (relation : Option Relation) : Prop :=
  ∀ r, relation = some r → Text.isBlank r.foreignKey = false ∧ Text.isBlank r.model = false

theorem Relation.check_eq_ok_iff (table column : String) {relation : Option Relation} :
    check table column relation = .ok () ↔ IsComplete relation := by
  cases relation with
  | none => simp [check, IsComplete]
  | some r => simp [check, IsComplete]

namespace TableChange

variable {t : TableChange} {name : String} {bucket : Bucket}

theorem checkDefined_eq_ok_iff {columns : List (String × ColumnDef)} :
    checkDefined name columns = .ok () ↔
      ∀ entry ∈ columns,
        Text.isBlank entry.2.type = false ∧ Relation.IsComplete entry.2.belongsTo := by
  induction columns with
  | nil => simp [checkDefined]
  | cons entry columns ih =>
    obtain ⟨column, c⟩ := entry
    rw [List.forall_mem_cons, ← ih]
    rw [← Relation.check_eq_ok_iff name column]
    rw [checkDefined]
    cases Text.isBlank c.type with
    | true => simp [bind, Except.bind]
    | false =>
      simp only [Bool.false_eq_true, if_false, true_and]
      exact check_bind_eq_ok_iff

theorem checkDeleted_eq_ok_iff {columns : List (String × ColumnDrop)} :
    checkDeleted name columns = .ok () ↔
      ∀ entry ∈ columns, Relation.IsComplete entry.2.belongsTo := by
  induction columns with
  | nil => simp [checkDeleted]
  | cons entry columns ih =>
    obtain ⟨column, c⟩ := entry
    rw [List.forall_mem_cons, ← ih]
    rw [← Relation.check_eq_ok_iff name column]
    exact check_bind_eq_ok_iff

theorem check_eq_ok_iff :
    t.check name bucket = .ok () ↔
      Text.isBlank t.connection = false ∧ t.checkBuckets name bucket = .ok () ∧
      checkDefined name t.columnDefs = .ok () ∧
      checkDeleted name (bucketEntries t.deleted) = .ok () := by
  unfold check
  cases Text.isBlank t.connection with
  | true => simp [bind, Except.bind]
  | false =>
    simp only [Bool.false_eq_true, if_false, true_and]
    exact (check_bind_eq_ok_iff.trans (and_congr_right fun _ => check_bind_eq_ok_iff))

theorem checkBuckets_created_eq_ok_iff :
    t.checkBuckets name .created = .ok () ↔ t.updated = none ∧ t.deleted = none := by
  cases hupdated : t.updated <;> cases hdeleted : t.deleted <;>
    simp [checkBuckets, hupdated, hdeleted]

theorem checkBuckets_deleted_eq_ok_iff :
    t.checkBuckets name .deleted = .ok () ↔
      t.created = none ∧ t.updated = none ∧ t.deleted = none := by
  cases hcreated : t.created <;> cases hupdated : t.updated <;> cases hdeleted : t.deleted <;>
    simp [checkBuckets, hasColumns, hcreated, hupdated, hdeleted]

end TableChange

namespace ChangeSet

theorem lookup_eq_none_iff {seen : List (String × Bucket)} {name : String} :
    seen.lookup name = none ↔ name ∉ seen.map (·.1) := by
  rw [List.lookup_eq_none_iff]
  grind

theorem checkTables_eq_ok_iff {seen : List (String × Bucket)}
    {tables : List (Bucket × String × TableChange)} :
    checkTables seen tables = .ok () ↔
      (tables.map (·.2.1)).Nodup ∧
      ∀ entry ∈ tables,
        entry.2.1 ∉ seen.map (·.1) ∧ entry.2.2.check entry.2.1 entry.1 = .ok () := by
  induction tables generalizing seen with
  | nil => simp [checkTables]
  | cons entry tables ih =>
    obtain ⟨bucket, name, t⟩ := entry
    rw [List.forall_mem_cons]
    unfold checkTables
    split
    . next first hseen =>
      have hmem : name ∈ seen.map (·.1) := by
        by_contra hnot
        rw [lookup_eq_none_iff.mpr hnot] at hseen
        contradiction
      constructor
      . intro h
        contradiction
      . intro h
        exact absurd hmem h.2.1.1
    . next hseen =>
      rw [lookup_eq_none_iff] at hseen
      rw [check_bind_eq_ok_iff]
      rw [ih]
      -- The names of the other tables are new to `seen` and differ from the name of this one.
      simp only [List.map_cons, List.nodup_cons, List.mem_cons, List.mem_map]
      grind

theorem allTables_eq (cs : ChangeSet) :
    cs.allTables =
      (cs.tables .created).map (fun entry => (.created, entry)) ++
      (cs.tables .updated).map (fun entry => (.updated, entry)) ++
      (cs.tables .deleted).map (fun entry => (.deleted, entry)) := by
  rcases cs with ⟨_ | _, _ | _, _ | _⟩ <;>
    simp [allTables, buckets, bucket, tables, bucketEntries]

variable {cs : ChangeSet}

theorem mem_allTables_iff {bucket : Bucket} {entry : String × TableChange} :
    (bucket, entry) ∈ cs.allTables ↔ entry ∈ cs.tables bucket := by
  rw [allTables_eq]
  cases bucket <;> simp

theorem map_name_allTables (cs : ChangeSet) :
    cs.allTables.map (·.2.1) =
      (cs.tables .created).map (·.1) ++ (cs.tables .updated).map (·.1) ++
      (cs.tables .deleted).map (·.1) := by
  rw [allTables_eq]
  simp [Function.comp_def]

theorem validate_eq_ok_iff :
    cs.validate = .ok () ↔
      (cs.allTables.map (·.2.1)).Nodup ∧
      ∀ bucket, ∀ entry ∈ cs.tables bucket, entry.2.check entry.1 bucket = .ok () := by
  unfold validate
  rw [checkTables_eq_ok_iff]
  apply and_congr_right
  intro _
  constructor
  . intro h bucket entry hentry
    exact (h (bucket, entry) (mem_allTables_iff.mpr hentry)).2
  . intro h entry hentry
    exact ⟨by simp, h entry.1 entry.2 (mem_allTables_iff.mp hentry)⟩

theorem only_created_of_validate (h : cs.validate = .ok ()) {entry : String × TableChange}
    (hentry : entry ∈ cs.tables .created) : entry.2.updated = none ∧ entry.2.deleted = none := by
  obtain ⟨_, hcheck⟩ := validate_eq_ok_iff.mp h
  obtain ⟨_, hbuckets, _⟩ := TableChange.check_eq_ok_iff.mp (hcheck .created entry hentry)
  exact TableChange.checkBuckets_created_eq_ok_iff.mp hbuckets

end ChangeSet

end SchemaMigration
