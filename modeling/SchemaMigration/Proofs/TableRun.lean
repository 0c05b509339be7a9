import Mathlib.Data.Finset.Lattice.Lemmas
import Mathlib.Data.Finset.Basic
import SchemaMigration.Proofs.Schema

/-!
This module contains the running of the statements for one table. If a change fits the table, all of
its statements go through: columns are added, keys that are in the way are dropped, columns go, and
in the end the keys of the defined columns are added.
-/

namespace SchemaMigration

def databaseNames (columns : List (String × ColumnDef)) : List String :=
  columns.map fun (name, c) => c.databaseName name

def Relation.keys (relation : Option Relation) : List String :=
  (relation.map (·.foreignKey)).toList

def definedKeys (columns : List (String × ColumnDef)) : List String :=
  columns.flatMap fun (_, c) => Relation.keys c.belongsTo

def droppedKeys (columns : List (String × ColumnDrop)) : List String :=
  columns.flatMap fun (_, c) => Relation.keys c.belongsTo

namespace TableChange

def createdNames (t : TableChange) : List String := databaseNames (bucketEntries t.created)

def updatedNames (t : TableChange) : List String := databaseNames (bucketEntries t.updated)

def deletedNames (t : TableChange) : List String := (bucketEntries t.deleted).map (·.1)

def addedKeys (t : TableChange) : List String := definedKeys t.columnDefs

def removedKeys (t : TableChange) : List String := droppedKeys (bucketEntries t.deleted)

/--
A change fits a table if its columns and keys are there to be changed. An updated column carries a
key just if it has a relation. The relation of a deleted column is meant to name this column; if it
names another one, then that one loses its key, and a deleted column that carries a key has to lose
it by a relation of its own or of a column deleted before it.
-/
structure Fits (t : TableChange) (x : Table) : Prop where
  created_nodup : t.createdNames.Nodup
  created_new : ∀ name ∈ t.createdNames, name ∉ x.columns
  kept_nodup : (t.updatedNames ++ t.deletedNames).Nodup
  kept_present : ∀ name ∈ t.updatedNames ++ t.deletedNames, name ∈ x.columns
  updated_keyed : ∀ entry ∈ bucketEntries t.updated,
    entry.2.databaseName entry.1 ∈ x.keyed ↔ entry.2.belongsTo.isSome
  removed_nodup : t.removedKeys.Nodup
  removed_keyed : ∀ key ∈ t.removedKeys, key ∈ x.keyed ∧ key ∉ t.updatedNames
  deleted_free : ∀ before name c after, bucketEntries t.deleted = before ++ (name, c) :: after →
    name ∈ x.keyed → name ∈ droppedKeys (before ++ [(name, c)])

end TableChange

theorem definedKeys_cons (name : String) (c : ColumnDef) (columns : List (String × ColumnDef)) :
    definedKeys ((name, c) :: columns) = Relation.keys c.belongsTo ++ definedKeys columns := rfl

theorem droppedKeys_cons (name : String) (c : ColumnDrop) (columns : List (String × ColumnDrop)) :
    droppedKeys ((name, c) :: columns) = Relation.keys c.belongsTo ++ droppedKeys columns := rfl

theorem Relation.mem_keys_iff {relation : Option Relation} {key : String} :
    key ∈ keys relation ↔ ∃ r, relation = some r ∧ r.foreignKey = key := by
  cases relation <;> simp [keys, eq_comm]

theorem ColumnDef.databaseName_eq_of_mem_keys {c : ColumnDef} {key : String} (name : String)
    (h : key ∈ Relation.keys c.belongsTo) : c.databaseName name = key := by
  obtain ⟨r, hr, hkey⟩ := Relation.mem_keys_iff.mp h
  unfold databaseName
  rw [hr]
  exact hkey

theorem ColumnDef.databaseName_mem_keys_iff {c : ColumnDef} {name : String} :
    c.databaseName name ∈ Relation.keys c.belongsTo ↔ c.belongsTo.isSome := by
  unfold databaseName Relation.keys
  cases c.belongsTo <;> simp

-- A key is carried by the column that it names, which is why the column goes by this name.
theorem definedKeys_sublist (columns : List (String × ColumnDef)) :
    (definedKeys columns).Sublist (databaseNames columns) := by
  induction columns with
  | nil => exact .slnil
  | cons entry columns ih =>
    obtain ⟨name, c⟩ := entry
    rw [definedKeys_cons]
    show List.Sublist _ (c.databaseName name :: databaseNames columns)
    unfold ColumnDef.databaseName
    cases c.belongsTo with
    | none => exact ih.cons _
    | some r => exact ih.cons_cons _

theorem droppedKeys_sublist {columns : List (String × ColumnDrop)}
    (hown : ∀ entry ∈ columns, ∀ r, entry.2.belongsTo = some r → r.foreignKey = entry.1) :
    (droppedKeys columns).Sublist (columns.map (·.1)) := by
  induction columns with
  | nil => exact .slnil
  | cons entry columns ih =>
    obtain ⟨name, c⟩ := entry
    rw [List.forall_mem_cons] at hown
    rw [droppedKeys_cons, List.map_cons]
    cases hrelation : c.belongsTo with
    | none => exact (ih hown.2).cons _
    | some r =>
      have hname := hown.1 r hrelation
      rw [← hname]
      exact (ih hown.2).cons_cons _

theorem filterMap_map_foreignKey (columns : List (String × ColumnDef)) :
    (columns.filterMap fun (_, c) => c.belongsTo).map (·.foreignKey) = definedKeys columns := by
  induction columns with
  | nil => rfl
  | cons entry columns ih =>
    obtain ⟨name, c⟩ := entry
    rw [definedKeys_cons, ← ih]
    cases hrelation : c.belongsTo with
    | none => simp [hrelation, Relation.keys]
    | some r => simp [hrelation, Relation.keys]

namespace Table

variable {x : Table} {connection : String}

theorem run_dropKey {relation : Option Relation}
    (h : ∀ key ∈ Relation.keys relation, key ∈ x.keyed) :
    ∃ y, x.run (Relation.dropKey relation connection) = some y ∧
      y.columns = x.columns ∧ y.keyed = x.keyed \ (Relation.keys relation).toFinset := by
  cases relation with
  | none => exact ⟨x, rfl, rfl, by simp [Relation.keys]⟩
  | some r =>
    obtain ⟨y, hrun, hcolumns, hkeyed⟩ := dropKey_eq_some (h r.foreignKey (by simp [Relation.keys]))
    refine ⟨y, ?_, hcolumns, ?_⟩
    . simp [Relation.dropKey, dropKeys, run_cons, runStatement, hrun]
    . rw [hkeyed]
      simp [Relation.keys, Finset.sdiff_singleton_eq_erase]

theorem run_creation {c : ColumnDef} {name : String} (h : c.databaseName name ∉ x.columns) :
    ∃ y, x.run [c.creation name] = some y ∧
      y.columns = insert (c.databaseName name) x.columns ∧ y.keyed = x.keyed := by
  obtain ⟨y, hrun, hy⟩ := addColumn_eq_some h
  refine ⟨y, ?_, hy⟩
  rw [run_cons]
  show (x.addColumn (c.databaseName name)).bind _ = _
  rw [hrun]
  rfl

theorem run_update {c : ColumnDef} {name : String} (hcolumn : c.databaseName name ∈ x.columns)
    (hkey : c.databaseName name ∈ x.keyed ↔ c.belongsTo.isSome) :
    ∃ y, x.run (c.update name connection) = some y ∧
      y.columns = x.columns ∧ y.keyed = x.keyed \ (Relation.keys c.belongsTo).toFinset := by
  have hdrop : ∀ key ∈ Relation.keys c.belongsTo, key ∈ x.keyed := by
    intro key hmem
    have hname := ColumnDef.databaseName_eq_of_mem_keys name hmem
    rw [← hname] at hmem ⊢
    exact hkey.mpr (ColumnDef.databaseName_mem_keys_iff.mp hmem)
  obtain ⟨y, hrun, hcolumns, hkeyed⟩ := run_dropKey hdrop
  refine ⟨y, ?_, hcolumns, hkeyed⟩
  -- The column has no key any more when it is changed.
  have hfree : c.databaseName name ∉ y.keyed := by
    rw [hkeyed, Finset.mem_sdiff, List.mem_toFinset]
    rw [hkey, ColumnDef.databaseName_mem_keys_iff]
    intro h
    exact h.2 h.1
  unfold ColumnDef.update
  rw [run_append, hrun, Option.bind_some, run_cons]
  show (y.changeColumn (c.databaseName name)).bind _ = _
  rw [changeColumn_eq_some (by rwa [hcolumns]) hfree]
  rfl

theorem run_deletion {c : ColumnDrop} {name : String} (hcolumn : name ∈ x.columns)
    (hkeys : ∀ key ∈ Relation.keys c.belongsTo, key ∈ x.keyed)
    (hfree : name ∈ x.keyed → name ∈ Relation.keys c.belongsTo) :
    ∃ y, x.run (c.deletion name connection) = some y ∧
      y.columns = x.columns.erase name ∧
      y.keyed = x.keyed \ (Relation.keys c.belongsTo).toFinset := by
  obtain ⟨y, hdrop, hcolumns, hkeyed⟩ := run_dropKey hkeys
  have hname : name ∉ y.keyed := by
    rw [hkeyed]
    simpa using hfree
  obtain ⟨z, hremove, hcolumns', hkeyed'⟩ := dropColumn_eq_some (by rwa [hcolumns]) hname
  refine ⟨z, ?_, by rw [hcolumns', hcolumns], by rw [hkeyed', hkeyed]⟩
  unfold ColumnDrop.deletion
  rw [run_append, hdrop, Option.bind_some, run_cons]
  show (y.dropColumn name).bind _ = _
  rw [hremove]
  rfl

theorem run_creations {columns : List (String × ColumnDef)} (hnodup : (databaseNames columns).Nodup)
    (hnew : ∀ name ∈ databaseNames columns, name ∉ x.columns) :
    ∃ y, x.run (columns.map fun (name, c) => c.creation name) = some y ∧
      y.columns = x.columns ∪ (databaseNames columns).toFinset ∧ y.keyed = x.keyed := by
  induction columns generalizing x with
  | nil => exact ⟨x, rfl, by simp [databaseNames], rfl⟩
  | cons entry columns ih =>
    obtain ⟨name, c⟩ := entry
    have hcons : databaseNames ((name, c) :: columns) =
      c.databaseName name :: databaseNames columns := rfl
    rw [hcons, List.nodup_cons] at hnodup
    rw [hcons, List.forall_mem_cons] at hnew
    obtain ⟨y, hrun, hcolumns, hkeyed⟩ := run_creation hnew.1
    have hnew' : ∀ other ∈ databaseNames columns, other ∉ y.columns := by
      intro other hmem
      rw [hcolumns, Finset.mem_insert, not_or]
      exact ⟨ne_of_mem_of_not_mem hmem hnodup.1, hnew.2 other hmem⟩
    obtain ⟨z, hrun', hcolumns', hkeyed'⟩ := ih hnodup.2 hnew'
    refine ⟨z, ?_, ?_, hkeyed'.trans hkeyed⟩
    . rw [List.map_cons, ← List.singleton_append, run_append]
      rw [hrun]
      exact hrun'
    . rw [hcolumns', hcolumns, hcons]
      rw [List.toFinset_cons, Finset.insert_union, Finset.union_insert]

theorem run_updates (connection : String) {columns : List (String × ColumnDef)}
    (hnodup : (databaseNames columns).Nodup)
    (hpresent : ∀ name ∈ databaseNames columns, name ∈ x.columns)
    (hkeys : ∀ entry ∈ columns,
      entry.2.databaseName entry.1 ∈ x.keyed ↔ entry.2.belongsTo.isSome) :
    ∃ y, x.run (columns.flatMap fun (name, c) => c.update name connection) = some y ∧
      y.columns = x.columns ∧ y.keyed = x.keyed \ (definedKeys columns).toFinset := by
  induction columns generalizing x with
  | nil => exact ⟨x, rfl, rfl, by simp [definedKeys]⟩
  | cons entry columns ih =>
    obtain ⟨name, c⟩ := entry
    have hcons : databaseNames ((name, c) :: columns) =
      c.databaseName name :: databaseNames columns := rfl
    rw [hcons, List.nodup_cons] at hnodup
    rw [hcons, List.forall_mem_cons] at hpresent
    rw [List.forall_mem_cons] at hkeys
    obtain ⟨y, hrun, hcolumns, hkeyed⟩ := run_update hpresent.1 hkeys.1
    -- Only the key of this column is gone, and the others have other names.
    have hkeys' : ∀ entry ∈ columns,
        entry.2.databaseName entry.1 ∈ y.keyed ↔ entry.2.belongsTo.isSome := by
      intro other hmem
      have hne : other.2.databaseName other.1 ∉ Relation.keys c.belongsTo := by
        intro hkey
        apply hnodup.1
        rw [ColumnDef.databaseName_eq_of_mem_keys name hkey]
        exact List.mem_map_of_mem hmem
      rw [hkeyed, Finset.mem_sdiff, List.mem_toFinset]
      rw [hkeys.2 other hmem]
      exact and_iff_left hne
    rw [← hcolumns] at hpresent
    obtain ⟨z, hrun', hcolumns', hkeyed'⟩ := ih hnodup.2 hpresent.2 hkeys'
    refine ⟨z, ?_, hcolumns'.trans hcolumns, ?_⟩
    . rw [List.flatMap_cons, run_append]
      rw [hrun]
      exact hrun'
    . rw [hkeyed', hkeyed, definedKeys_cons]
      rw [List.toFinset_append, sdiff_sdiff_left]
      rfl

theorem run_deletions (connection : String) {columns : List (String × ColumnDrop)}
    (hnodup : (columns.map (·.1)).Nodup)
    (hpresent : ∀ name ∈ columns.map (·.1), name ∈ x.columns)
    (hkeysNodup : (droppedKeys columns).Nodup) (hkeys : ∀ key ∈ droppedKeys columns, key ∈ x.keyed)
    (hfree : ∀ before name c after, columns = before ++ (name, c) :: after →
      name ∈ x.keyed → name ∈ droppedKeys (before ++ [(name, c)])) :
    ∃ y, x.run (columns.flatMap fun (name, c) => c.deletion name connection) = some y ∧
      y.columns = x.columns \ (columns.map (·.1)).toFinset ∧
      y.keyed = x.keyed \ (droppedKeys columns).toFinset := by
  induction columns generalizing x with
  | nil => exact ⟨x, rfl, by simp, by simp [droppedKeys]⟩
  | cons entry columns ih =>
    obtain ⟨name, c⟩ := entry
    rw [List.map_cons, List.nodup_cons] at hnodup
    rw [List.map_cons, List.forall_mem_cons] at hpresent
    rw [droppedKeys_cons] at hkeysNodup hkeys
    obtain ⟨_, hrestNodup, hdisjoint⟩ := List.nodup_append'.mp hkeysNodup
    have hfirst : name ∈ x.keyed → name ∈ Relation.keys c.belongsTo := by
      intro hmem
      simpa [droppedKeys] using hfree [] name c columns rfl hmem
    obtain ⟨y, hrun, hcolumns, hkeyed⟩ :=
      run_deletion hpresent.1 (fun key hkey => hkeys key (by simp [hkey])) hfirst
    have hpresent' : ∀ other ∈ columns.map (·.1), other ∈ y.columns := by
      intro other hmem
      rw [hcolumns, Finset.mem_erase]
      exact ⟨ne_of_mem_of_not_mem hmem hnodup.1, hpresent.2 other hmem⟩
    have hkeys' : ∀ key ∈ droppedKeys columns, key ∈ y.keyed := by
      intro key hmem
      rw [hkeyed, Finset.mem_sdiff, List.mem_toFinset]
      exact ⟨hkeys key (by simp [hmem]), fun hkey => hdisjoint hkey hmem⟩
    have hfree' : ∀ before other d after, columns = before ++ (other, d) :: after →
        other ∈ y.keyed → other ∈ droppedKeys (before ++ [(other, d)]) := by
      intro before other d after heq hmem
      rw [hkeyed, Finset.mem_sdiff, List.mem_toFinset] at hmem
      have hall := hfree ((name, c) :: before) other d after (by rw [heq]; rfl) hmem.1
      rw [List.cons_append, droppedKeys_cons, List.mem_append] at hall
      exact hall.resolve_left hmem.2
    obtain ⟨z, hrun', hcolumns', hkeyed'⟩ := ih hnodup.2 hpresent' hrestNodup hkeys' hfree'
    refine ⟨z, ?_, ?_, ?_⟩
    . rw [List.flatMap_cons, run_append]
      rw [hrun]
      exact hrun'
    . rw [hcolumns', hcolumns, List.map_cons, List.toFinset_cons]
      rw [← Finset.sdiff_singleton_eq_erase, sdiff_sdiff_left]
      rfl
    . rw [hkeyed', hkeyed, droppedKeys_cons]
      rw [List.toFinset_append, sdiff_sdiff_left]
      rfl

theorem run_foreign {keys : List ForeignKey} (hnodup : (keys.map (·.column)).Nodup)
    (hpresent : ∀ name ∈ keys.map (·.column), name ∈ x.columns)
    (hfree : ∀ name ∈ keys.map (·.column), name ∉ x.keyed) :
    ∃ y, x.run (keys.map .foreign) = some y ∧
      y.columns = x.columns ∧ y.keyed = x.keyed ∪ (keys.map (·.column)).toFinset := by
  induction keys generalizing x with
  | nil => exact ⟨x, rfl, rfl, by simp⟩
  | cons key keys ih =>
    rw [List.map_cons, List.nodup_cons] at hnodup
    rw [List.map_cons, List.forall_mem_cons] at hpresent hfree
    obtain ⟨y, hrun, hcolumns, hkeyed⟩ := addKey_eq_some hpresent.1 hfree.1
    have hfree' : ∀ name ∈ keys.map (·.column), name ∉ y.keyed := by
      intro name hmem
      rw [hkeyed, Finset.mem_insert, not_or]
      exact ⟨ne_of_mem_of_not_mem hmem hnodup.1, hfree.2 name hmem⟩
    rw [← hcolumns] at hpresent
    obtain ⟨z, hrun', hcolumns', hkeyed'⟩ := ih hnodup.2 hpresent.2 hfree'
    refine ⟨z, ?_, hcolumns'.trans hcolumns, ?_⟩
    . rw [List.map_cons, run_cons]
      show (x.addKey key.column).bind _ = _
      rw [hrun]
      exact hrun'
    . rw [hkeyed', hkeyed, List.map_cons]
      rw [List.toFinset_cons, Finset.insert_union, Finset.union_insert]

end Table

namespace TableChange

variable {t : TableChange} {x y : Table}

-- What the statements of a change come to. The keys of the defined columns are yet to be added.
structure Altered (t : TableChange) (x y : Table) : Prop where
  columns : y.columns = (x.columns ∪ t.createdNames.toFinset) \ t.deletedNames.toFinset
  keyed : y.keyed =
    (x.keyed \ (definedKeys (bucketEntries t.updated)).toFinset) \ t.removedKeys.toFinset

/--
What a change comes to: the created columns are there, the deleted ones are not, and besides the
keys that were there and are not removed, just the defined columns with a relation carry one.
-/
structure Performed (t : TableChange) (x z : Table) : Prop where
  columns : z.columns = (x.columns ∪ t.createdNames.toFinset) \ t.deletedNames.toFinset
  keyed : z.keyed = (x.keyed \ t.removedKeys.toFinset) ∪ t.addedKeys.toFinset

theorem addedKeys_eq (t : TableChange) :
    t.addedKeys =
      definedKeys (bucketEntries t.created) ++ definedKeys (bucketEntries t.updated) := by
  unfold addedKeys columnDefs definedKeys
  rw [List.flatMap_append]

theorem relations_map_foreignKey (t : TableChange) :
    t.relations.map (·.foreignKey) = t.addedKeys :=
  filterMap_map_foreignKey t.columnDefs

namespace Fits

-- The usual case, in which every relation of a deleted column names this column.
theorem of_own_keys (hcreated : t.createdNames.Nodup)
    (hnew : ∀ name ∈ t.createdNames, name ∉ x.columns)
    (hkept : (t.updatedNames ++ t.deletedNames).Nodup)
    (hpresent : ∀ name ∈ t.updatedNames ++ t.deletedNames, name ∈ x.columns)
    (hupdated : ∀ entry ∈ bucketEntries t.updated,
      entry.2.databaseName entry.1 ∈ x.keyed ↔ entry.2.belongsTo.isSome)
    (hdeleted : ∀ entry ∈ bucketEntries t.deleted, entry.1 ∈ x.keyed ↔ entry.2.belongsTo.isSome)
    (hown : ∀ entry ∈ bucketEntries t.deleted, ∀ r, entry.2.belongsTo = some r →
      r.foreignKey = entry.1) :
    t.Fits x where
  created_nodup := hcreated
  created_new := hnew
  kept_nodup := hkept
  kept_present := hpresent
  updated_keyed := hupdated
  removed_nodup := by
    obtain ⟨_, hnodup, _⟩ := List.nodup_append'.mp hkept
    exact hnodup.sublist (droppedKeys_sublist hown)
  removed_keyed := by
    intro key hmem
    obtain ⟨_, _, hdisjoint⟩ := List.nodup_append'.mp hkept
    obtain ⟨entry, hentry, hkey⟩ := List.mem_flatMap.mp hmem
    obtain ⟨r, hr, hname⟩ := Relation.mem_keys_iff.mp hkey
    have heq : entry.1 = key := (hown entry hentry r hr).symm.trans hname
    rw [← heq]
    refine ⟨(hdeleted entry hentry).mpr (by simp [hr]), fun hupdated => ?_⟩
    exact hdisjoint hupdated (List.mem_map_of_mem hentry)
  deleted_free := by
    intro before name c after heq hmem
    have hentry : (name, c) ∈ bucketEntries t.deleted := by simp [heq]
    obtain ⟨r, hr⟩ := Option.isSome_iff_exists.mp ((hdeleted _ hentry).mp hmem)
    apply List.mem_flatMap.mpr
    refine ⟨(name, c), by simp, Relation.mem_keys_iff.mpr ⟨r, hr, hown _ hentry r hr⟩⟩

theorem run_statements (h : t.Fits x) : ∃ y, x.run t.statements = some y ∧ t.Altered x y := by
  obtain ⟨hupdated, hdeleted, _⟩ := List.nodup_append'.mp h.kept_nodup
  obtain ⟨y, hy, hcolumns, hkeyed⟩ := Table.run_creations h.created_nodup h.created_new
  have hpresent : ∀ name ∈ t.updatedNames ++ t.deletedNames, name ∈ y.columns := by
    intro name hmem
    rw [hcolumns]
    exact Finset.mem_union_left _ (h.kept_present name hmem)
  obtain ⟨z, hz, hcolumns', hkeyed'⟩ :=
    Table.run_updates t.connection hupdated
      (fun name hmem => hpresent name (List.mem_append_left _ hmem))
      (by rw [hkeyed]; exact h.updated_keyed)
  -- A key that is removed is none of those that the updated columns have lost by now.
  have hremoved : ∀ key ∈ t.removedKeys, key ∈ z.keyed := by
    intro key hmem
    obtain ⟨hkey, hnot⟩ := h.removed_keyed key hmem
    rw [hkeyed', hkeyed, Finset.mem_sdiff, List.mem_toFinset]
    exact ⟨hkey, fun hdefined => hnot ((definedKeys_sublist _).subset hdefined)⟩
  have hfree : ∀ before name c after, bucketEntries t.deleted = before ++ (name, c) :: after →
      name ∈ z.keyed → name ∈ droppedKeys (before ++ [(name, c)]) := by
    intro before name c after heq hmem
    rw [hkeyed', hkeyed, Finset.mem_sdiff] at hmem
    exact h.deleted_free before name c after heq hmem.1
  rw [← hcolumns'] at hpresent
  obtain ⟨w, hw, hcolumns'', hkeyed''⟩ :=
    Table.run_deletions t.connection hdeleted
      (fun name hmem => hpresent name (List.mem_append_right _ hmem)) h.removed_nodup hremoved hfree
  refine ⟨w, ?_, ?_, ?_⟩
  . unfold statements
    rw [Table.run_append, Table.run_append]
    rw [hy, Option.bind_some, hz]
    exact hw
  . rw [hcolumns'', hcolumns', hcolumns]
    rfl
  . rw [hkeyed'', hkeyed', hkeyed]
    rfl

theorem run_keys (h : t.Fits x) (hy : t.Altered x y) {keys : List ForeignKey}
    (hkeys : keys.map (·.column) = t.addedKeys) :
    ∃ z, y.run (keys.map .foreign) = some z ∧ t.Performed x z := by
  obtain ⟨hupdated, _, hdisjoint⟩ := List.nodup_append'.mp h.kept_nodup
  have hcreatedKeys := definedKeys_sublist (bucketEntries t.created)
  have hupdatedKeys := definedKeys_sublist (bucketEntries t.updated)
  have hnew : ∀ key ∈ definedKeys (bucketEntries t.created), key ∉ x.columns := by
    intro key hmem
    exact h.created_new key (hcreatedKeys.subset hmem)
  have hold : ∀ key ∈ definedKeys (bucketEntries t.updated), key ∈ x.columns := by
    intro key hmem
    exact h.kept_present key (List.mem_append_left _ (hupdatedKeys.subset hmem))
  have hnodup : t.addedKeys.Nodup := by
    rw [addedKeys_eq, List.nodup_append']
    refine ⟨h.created_nodup.sublist hcreatedKeys, hupdated.sublist hupdatedKeys, ?_⟩
    intro key hcreated hmem
    exact hnew key hcreated (hold key hmem)
  have hpresent : ∀ key ∈ t.addedKeys, key ∈ y.columns := by
    intro key hmem
    rw [hy.columns, Finset.mem_sdiff, Finset.mem_union, List.mem_toFinset, List.mem_toFinset]
    rw [addedKeys_eq, List.mem_append] at hmem
    cases hmem with
    | inl hcreated =>
      refine ⟨Or.inr (hcreatedKeys.subset hcreated), fun hdeleted => hnew key hcreated ?_⟩
      exact h.kept_present key (List.mem_append_right _ hdeleted)
    | inr hmem =>
      exact ⟨Or.inl (hold key hmem), fun hdeleted => hdisjoint (hupdatedKeys.subset hmem) hdeleted⟩
  have hfree : ∀ key ∈ t.addedKeys, key ∉ y.keyed := by
    intro key hmem hkey
    rw [hy.keyed, Finset.mem_sdiff, Finset.mem_sdiff, List.mem_toFinset] at hkey
    rw [addedKeys_eq, List.mem_append] at hmem
    cases hmem with
    | inl hcreated => exact hnew key hcreated (x.keyed_subset hkey.1.1)
    | inr hmem => exact hkey.1.2 hmem
  rw [← hkeys] at hnodup hpresent hfree
  obtain ⟨z, hz, hcolumns, hkeyed⟩ := Table.run_foreign hnodup hpresent hfree
  refine ⟨z, hz, hcolumns.trans hy.columns, ?_⟩
  -- The keys that the updated columns have lost are added again.
  rw [hkeyed, hkeys, hy.keyed, addedKeys_eq, List.toFinset_append]
  ext key
  simp only [Finset.mem_union, Finset.mem_sdiff]
  tauto

theorem performed_of_addedKeys_eq_nil (h : t.Fits x) (hy : t.Altered x y)
    (hnone : t.addedKeys = []) : t.Performed x y := by
  have hkeys : ([] : List ForeignKey).map (·.column) = t.addedKeys := by
    rw [hnone]
    rfl
  obtain ⟨z, hz, hperformed⟩ := h.run_keys hy hkeys
  have hyz : y = z := by simpa using hz
  rw [hyz]
  exact hperformed

end Fits

end TableChange

end SchemaMigration
