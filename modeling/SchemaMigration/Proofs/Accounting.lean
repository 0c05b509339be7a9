import SchemaMigration.Proofs.Compile
import SchemaMigration.Proofs.Validate

/-!
This module contains the account of a plan. Whatever a change set asks for is found in its plan once
and in the order of the change set: the tables among the groups, and the columns of each table among
the statements of its group.
-/

namespace SchemaMigration

def PassKind.rank : PassKind → Nat
  | .createdTables => 0
  | .updatedTables => 1
  | .relationships => 2
  | .deletedTables => 3

inductive ColumnStep where
  | add (name : String)
  | change (name : String)
  | drop (name : String)
  deriving DecidableEq

namespace Statement

def columnStep? : Statement → Option ColumnStep
  | .column call => call.name?.map fun name => if call.change then .change name else .add name
  | .dropColumn name => some (.drop name)
  | .dropForeign _ => none
  | .foreign _ => none
  | .connection _ => none

def dropsKeys : Statement → Bool
  | .dropForeign _ => true
  | .connection _ => true
  | _ => false

end Statement

namespace TableChange

def additions (t : TableChange) : List ColumnStep :=
  (bucketEntries t.created).map fun (name, c) => .add (c.databaseName name)

def changes (t : TableChange) : List ColumnStep :=
  (bucketEntries t.updated).map fun (name, c) => .change (c.databaseName name)

def drops (t : TableChange) : List ColumnStep :=
  (bucketEntries t.deleted).map fun (name, _) => .drop name

end TableChange

namespace Group

variable (entry : String × TableChange)

def Creates (group : Group) : Prop :=
  ∃ statements, group = .createTable ⟨entry.2.connection, entry.1, statements⟩ ∧
    statements.map Statement.columnStep? = entry.2.additions.map some

def Updates (group : Group) : Prop :=
  ∃ statements, group = .alterTable ⟨entry.2.connection, entry.1, statements⟩ ∧
    (statements.filter fun statement => !statement.dropsKeys).map Statement.columnStep? =
      (entry.2.additions ++ entry.2.changes ++ entry.2.drops).map some

def Deletes (group : Group) : Prop :=
  ∃ calls, group = .calls calls ∧ (∀ call ∈ calls, call.connection = entry.2.connection) ∧
    group.table? = some entry.1

end Group

def Plan.groupsOf (p : Plan) (kind : PassKind) : List Group :=
  (p.passes.filter (·.kind = kind)).flatMap (·.groups)

/--
The account of a plan: its passes are in order and none is without groups, and its groups for the
tables of a bucket are one for each of them, in the order of the bucket.
-/
structure Plan.Accounts (p : Plan) (cs : ChangeSet) : Prop where
  kinds : p.passes.Pairwise fun pass other => pass.kind.rank < other.kind.rank
  groups : ∀ pass ∈ p.passes, pass.groups ≠ []
  created : List.Forall₂ Group.Creates (cs.tables .created) (p.groupsOf .createdTables)
  updated : List.Forall₂ Group.Updates (cs.tables .updated) (p.groupsOf .updatedTables)
  deleted : List.Forall₂ Group.Deletes (cs.tables .deleted) (p.groupsOf .deletedTables)
  isEmpty : p.isEmpty = true ↔ cs.isEmpty = true

theorem filter_dropKey_append {statement : Statement} (h : statement.dropsKeys = false)
    (relation : Option Relation) (connection : String) :
    (Relation.dropKey relation connection ++ [statement]).filter
      (fun statement => !statement.dropsKeys) = [statement] := by
  have hkey : (Relation.dropKey relation connection).filter
      (fun statement => !statement.dropsKeys) = [] := by
    cases relation <;> rfl
  rw [List.filter_append, hkey]
  simp [h]

theorem ColumnDef.filter_update (c : ColumnDef) (name connection : String) :
    (c.update name connection).filter (fun statement => !statement.dropsKeys) =
      [.column (c.call name true)] := by
  unfold update
  apply filter_dropKey_append
  rfl

theorem ColumnDrop.filter_deletion (c : ColumnDrop) (name connection : String) :
    (c.deletion name connection).filter (fun statement => !statement.dropsKeys) =
      [.dropColumn name] := by
  unfold deletion
  apply filter_dropKey_append
  rfl

namespace TableChange

variable (t : TableChange)

theorem map_columnStep?_creations :
    ((bucketEntries t.created).map fun (name, c) => c.creation name).map Statement.columnStep? =
      t.additions.map some := by
  unfold additions
  rw [List.map_map, List.map_map]
  apply List.map_congr_left
  intro entry _
  rfl

theorem map_columnStep?_updates :
    (((bucketEntries t.updated).flatMap fun (name, c) => c.update name t.connection).filter
      fun statement => !statement.dropsKeys).map Statement.columnStep? = t.changes.map some := by
  unfold changes
  rw [List.filter_flatMap]
  simp only [ColumnDef.filter_update]
  rw [← List.map_eq_flatMap]
  rw [List.map_map, List.map_map]
  apply List.map_congr_left
  intro entry _
  rfl

theorem map_columnStep?_deletions :
    (((bucketEntries t.deleted).flatMap fun (name, c) => c.deletion name t.connection).filter
      fun statement => !statement.dropsKeys).map Statement.columnStep? = t.drops.map some := by
  unfold drops
  rw [List.filter_flatMap]
  simp only [ColumnDrop.filter_deletion]
  rw [← List.map_eq_flatMap]
  rw [List.map_map, List.map_map]
  apply List.map_congr_left
  intro entry _
  rfl

theorem filter_creations :
    ((bucketEntries t.created).map fun (name, c) => c.creation name).filter
      (fun statement => !statement.dropsKeys) =
      (bucketEntries t.created).map fun (name, c) => c.creation name := by
  rw [List.filter_eq_self]
  intro statement hmem
  obtain ⟨entry, _, heq⟩ := List.mem_map.mp hmem
  rw [← heq]
  rfl

theorem map_columnStep?_statements :
    (t.statements.filter fun statement => !statement.dropsKeys).map Statement.columnStep? =
      (t.additions ++ t.changes ++ t.drops).map some := by
  unfold statements
  simp only [List.filter_append, List.map_append]
  rw [filter_creations]
  rw [map_columnStep?_creations, map_columnStep?_updates, map_columnStep?_deletions]

variable {t}

theorem statements_of_only_created (h : t.updated = none ∧ t.deleted = none) :
    t.statements = (bucketEntries t.created).map fun (name, c) => c.creation name := by
  unfold statements
  rw [h.1, h.2]
  simp [bucketEntries]

end TableChange

namespace ChangeSet

variable {cs : ChangeSet}

theorem creates_creationGroups (h : cs.validate = .ok ()) :
    List.Forall₂ Group.Creates (cs.tables .created) cs.creationGroups := by
  unfold creationGroups
  rw [List.forall₂_map_right_iff, List.forall₂_same]
  intro entry hentry
  refine ⟨entry.2.statements, rfl, ?_⟩
  rw [TableChange.statements_of_only_created (only_created_of_validate h hentry)]
  rw [TableChange.map_columnStep?_creations]

theorem updates_updateGroups (cs : ChangeSet) :
    List.Forall₂ Group.Updates (cs.tables .updated) cs.updateGroups := by
  unfold updateGroups
  rw [List.forall₂_map_right_iff, List.forall₂_same]
  intro entry _
  exact ⟨entry.2.statements, rfl, entry.2.map_columnStep?_statements⟩

theorem deletes_deletionGroups (cs : ChangeSet) :
    List.Forall₂ Group.Deletes (cs.tables .deleted) cs.deletionGroups := by
  unfold deletionGroups
  rw [List.forall₂_map_right_iff, List.forall₂_same]
  intro entry _
  refine ⟨deletionCalls entry.1 entry.2.connection, rfl, ?_, rfl⟩
  intro call hcall
  simp only [deletionCalls, List.mem_cons, List.not_mem_nil, or_false] at hcall
  obtain rfl | rfl | rfl := hcall <;> rfl

-- Leaving out the passes without groups takes no group away from any kind.
theorem groupsOf_filter_passes (passes : List Pass) (kind : PassKind) :
    (⟨passes.filter fun pass => !pass.groups.isEmpty⟩ : Plan).groupsOf kind =
      (passes.filter (·.kind = kind)).flatMap (·.groups) := by
  unfold Plan.groupsOf
  rw [List.filter_comm]
  exact groups_filter_passes _

theorem pairwise_passes (cs : ChangeSet) (groups : List Group) :
    (cs.passes groups).Pairwise fun pass other => pass.kind.rank < other.kind.rank := by
  unfold passes
  simp [PassKind.rank]

theorem relationshipGroups_eq_nil {lookup : Lookup} {groups : List Group}
    (hgroups : cs.relationshipGroups lookup = .ok groups) (hnone : cs.keptTables = []) :
    groups = [] := by
  obtain ⟨keyGroups, hkeyGroups, heq⟩ := relationshipGroups_eq_ok_iff.mp hgroups
  unfold relatedTables at hkeyGroups
  rw [hnone] at hkeyGroups
  rw [heq, List.forall₂_nil_left_iff.mp hkeyGroups]
  rfl

theorem isEmpty_passes {lookup : Lookup} {groups : List Group}
    (hgroups : cs.relationshipGroups lookup = .ok groups) :
    (∀ pass ∈ cs.passes groups, pass.groups = []) ↔ cs.isEmpty = true := by
  rw [isEmpty_iff]
  unfold passes
  simp only [List.forall_mem_cons, List.not_mem_nil, creationGroups, updateGroups, deletionGroups,
    List.map_eq_nil_iff]
  constructor
  . intro ⟨hcreated, hupdated, _, hdeleted, _⟩
    exact ⟨hcreated, hupdated, hdeleted⟩
  . intro ⟨hcreated, hupdated, hdeleted⟩
    have hnone : cs.keptTables = [] := by
      unfold keptTables
      rw [hcreated, hupdated]
      rfl
    refine ⟨hcreated, hupdated, relationshipGroups_eq_nil hgroups hnone, hdeleted, ?_⟩
    simp

theorem compileWith_accounts {lookup : Lookup} {options : Options} {plan : Plan}
    (h : cs.compileWith lookup options = .ok plan) : plan.Accounts cs := by
  obtain ⟨hvalid, _, groups, hgroups, rfl⟩ := compileWith_eq_ok_iff.mp h
  constructor
  case kinds =>
    apply List.Pairwise.filter
    exact pairwise_passes cs groups
  case groups =>
    intro pass hpass
    simpa using (List.mem_filter.mp hpass).2
  case created =>
    rw [groupsOf_filter_passes]
    simpa [passes] using creates_creationGroups hvalid
  case updated =>
    rw [groupsOf_filter_passes]
    simpa [passes] using updates_updateGroups cs
  case deleted =>
    rw [groupsOf_filter_passes]
    simpa [passes] using deletes_deletionGroups cs
  case isEmpty =>
    rw [← isEmpty_passes hgroups]
    simp [Plan.isEmpty]

end ChangeSet

theorem blogChanges_accounts :
    ∃ plan, blogChanges.compileWith blogRegistry.lookup {} = .ok plan ∧
      plan.Accounts blogChanges := by
  obtain ⟨plan, h⟩ := exists_blogPlan
  exact ⟨plan, h, ChangeSet.compileWith_accounts h⟩

end SchemaMigration
