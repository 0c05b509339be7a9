import SchemaMigration.Proofs.Execution
import SchemaMigration.Proofs.Restriction

/-!
This module contains the reversal of the addition of columns. Adding columns to a table and then
deleting columns of the same names and relations leaves the schema as it was just if every column
goes by its declared name in the database. A column that has another name there, that of its key,
is not the one that is deleted.
-/

namespace SchemaMigration

namespace TableChange

def adding (connection : String) (columns : List (String × ColumnDef)) : TableChange where
  connection := connection
  created := some ⟨columns⟩

def dropping (connection : String) (columns : List (String × ColumnDrop)) : TableChange where
  connection := connection
  deleted := some ⟨columns⟩

theorem statements_dropping (connection : String) (columns : List (String × ColumnDrop)) :
    (dropping connection columns).statements =
      columns.flatMap fun (name, c) => c.deletion name connection := rfl

end TableChange

namespace ChangeSet

def alter (table : String) (t : TableChange) : ChangeSet where
  updated := some ⟨[(table, t)]⟩

def addColumns (connection table : String) (columns : List (String × ColumnDef)) : ChangeSet :=
  alter table (.adding connection columns)

def dropColumns (connection table : String) (columns : List (String × ColumnDrop)) : ChangeSet :=
  alter table (.dropping connection columns)

def ReversedBy (lookup : Lookup) (options : Options) (up down : ChangeSet) (s : Schema) : Prop :=
  ∃ upPlan downPlan s', up.compileWith lookup options = .ok upPlan ∧
    down.compileWith lookup options = .ok downPlan ∧
    s.run upPlan = some s' ∧ s'.run downPlan = some s

end ChangeSet

def asDrops (columns : List (String × ColumnDef)) : List (String × ColumnDrop) :=
  columns.map fun (name, c) => (name, ⟨c.belongsTo⟩)

theorem asDrops_cons (name : String) (c : ColumnDef) (columns : List (String × ColumnDef)) :
    asDrops ((name, c) :: columns) = (name, ⟨c.belongsTo⟩) :: asDrops columns := rfl

theorem names_asDrops (columns : List (String × ColumnDef)) :
    (asDrops columns).map (·.1) = columns.map (·.1) := by
  unfold asDrops
  rw [List.map_map]
  rfl

theorem droppedKeys_asDrops (columns : List (String × ColumnDef)) :
    droppedKeys (asDrops columns) = definedKeys columns := by
  unfold droppedKeys definedKeys asDrops
  rw [List.flatMap_map]

theorem databaseNames_cons (name : String) (c : ColumnDef) (columns : List (String × ColumnDef)) :
    databaseNames ((name, c) :: columns) = c.databaseName name :: databaseNames columns := rfl

-- A deletion drops the column by its declared name, whatever its relation is.
theorem ColumnDrop.dropColumn_mem_deletion_iff {c : ColumnDrop} {name other connection : String} :
    .dropColumn other ∈ c.deletion name connection ↔ other = name := by
  have hkept : .dropColumn other ∈ c.deletion name connection ↔
      .dropColumn other ∈ (c.deletion name connection).filter (!·.dropsKeys) := by
    rw [List.mem_filter]
    exact (and_iff_left rfl).symm
  rw [hkept, filter_deletion, List.mem_singleton, Statement.dropColumn.injEq]

theorem ColumnDef.databaseName_eq_iff {c : ColumnDef} {name : String} :
    c.databaseName name = name ↔ ∀ r, c.belongsTo = some r → r.foreignKey = name := by
  unfold databaseName
  cases c.belongsTo <;> simp

namespace Table

variable {x y z : Table} {connection name : String}

theorem of_dropColumn (h : x.dropColumn name = some y) :
    name ∈ x.columns ∧ name ∉ x.keyed ∧ y.columns = x.columns.erase name ∧ y.keyed = x.keyed := by
  unfold dropColumn at h
  split at h
  . next hname =>
    rw [Option.some.injEq] at h
    rw [← h]
    exact ⟨hname.1, hname.2, rfl, rfl⟩
  . contradiction

theorem of_run_dropKey {relation : Option Relation}
    (h : x.run (Relation.dropKey relation connection) = some y) :
    y.columns = x.columns ∧ y.keyed = x.keyed \ (Relation.keys relation).toFinset := by
  have hkeys : ∀ key ∈ Relation.keys relation, key ∈ x.keyed := by
    cases relation with
    | none => simp [Relation.keys]
    | some r =>
      by_contra hnot
      have hkey : r.foreignKey ∉ x.keyed := by simpa [Relation.keys] using hnot
      simp [Relation.dropKey, dropKeys, run_cons, runStatement, dropKey, hkey] at h
  obtain ⟨w, hrun, hw⟩ := run_dropKey hkeys
  rw [h, Option.some.injEq] at hrun
  rwa [hrun]

theorem of_run_deletion {c : ColumnDrop} (h : x.run (c.deletion name connection) = some y) :
    name ∈ x.columns ∧ (name ∈ x.keyed → name ∈ Relation.keys c.belongsTo) ∧
      y.columns = x.columns.erase name ∧
      y.keyed = x.keyed \ (Relation.keys c.belongsTo).toFinset := by
  unfold ColumnDrop.deletion at h
  rw [run_append, Option.bind_eq_some_iff] at h
  obtain ⟨w, hdrop, hremove⟩ := h
  have hremove : w.dropColumn name = some y := by
    rw [run_cons] at hremove
    simpa [runStatement] using hremove
  obtain ⟨hcolumns, hkeyed⟩ := of_run_dropKey hdrop
  obtain ⟨hname, hfree, hcolumns', hkeyed'⟩ := of_dropColumn hremove
  rw [hcolumns] at hname hcolumns'
  refine ⟨hname, ?_, hcolumns', hkeyed'.trans hkeyed⟩
  intro hkey
  by_contra hnot
  apply hfree
  rw [hkeyed, Finset.mem_sdiff, List.mem_toFinset]
  exact ⟨hkey, hnot⟩

theorem of_run_deletions {columns : List (String × ColumnDrop)}
    (h : x.run (columns.flatMap fun (name, c) => c.deletion name connection) = some y) :
    (∀ name ∈ columns.map (·.1), name ∈ x.columns) ∧
      y.columns = x.columns \ (columns.map (·.1)).toFinset := by
  induction columns generalizing x with
  | nil =>
    rw [List.flatMap_nil, run_nil, Option.some.injEq] at h
    simp [h]
  | cons entry columns ih =>
    obtain ⟨name, c⟩ := entry
    rw [List.flatMap_cons, run_append, Option.bind_eq_some_iff] at h
    obtain ⟨w, hfirst, hrest⟩ := h
    obtain ⟨hname, _, hcolumns, _⟩ := of_run_deletion hfirst
    obtain ⟨hpresent, hcolumns'⟩ := ih hrest
    rw [List.map_cons]
    constructor
    . rw [List.forall_mem_cons]
      refine ⟨hname, ?_⟩
      intro other hother
      have hmem := hpresent other hother
      rw [hcolumns] at hmem
      exact Finset.mem_of_mem_erase hmem
    . rw [hcolumns', hcolumns, List.toFinset_cons]
      rw [← Finset.sdiff_singleton_eq_erase, sdiff_sdiff_left]
      rfl

variable {columns : List (String × ColumnDef)}

theorem databaseName_eq_of_run_deletions (hnames : (columns.map (·.1)).Nodup)
    (hrendered : (databaseNames columns).Nodup)
    (honly : ∀ name ∈ columns.map (·.1), name ∈ databaseNames columns)
    (hkeyed : ∀ key ∈ definedKeys columns, key ∈ x.keyed)
    (h : x.run ((asDrops columns).flatMap fun (name, c) => c.deletion name connection) = some y) :
    ∀ entry ∈ columns, entry.2.databaseName entry.1 = entry.1 := by
  induction columns generalizing x with
  | nil => simp
  | cons entry columns ih =>
    obtain ⟨name, c⟩ := entry
    rw [asDrops_cons, List.flatMap_cons, run_append, Option.bind_eq_some_iff] at h
    obtain ⟨w, hfirst, hrest⟩ := h
    obtain ⟨_, hfree, _, hkeyed'⟩ := of_run_deletion hfirst
    rw [List.map_cons, List.nodup_cons] at hnames
    rw [databaseNames_cons, List.nodup_cons] at hrendered
    rw [List.map_cons, databaseNames_cons, List.forall_mem_cons] at honly
    rw [definedKeys_cons] at hkeyed
    have hname : c.databaseName name = name := by
      by_contra hne
      obtain ⟨other, hother, heq⟩ :=
        List.mem_map.mp ((List.mem_cons.mp honly.1).resolve_left (Ne.symm hne))
      dsimp only at heq
      have hdefined : name ∈ definedKeys columns := by
        cases hrelation : other.2.belongsTo with
        | none =>
          have hsame : other.1 = name := by simpa [ColumnDef.databaseName, hrelation] using heq
          exact absurd (List.mem_map.mpr ⟨other, hother, hsame⟩) hnames.1
        | some r =>
          apply List.mem_flatMap.mpr
          refine ⟨other, hother, Relation.mem_keys_iff.mpr ⟨r, hrelation, ?_⟩⟩
          simpa [ColumnDef.databaseName, hrelation] using heq
      have hkey := hfree (hkeyed name (List.mem_append_right _ hdefined))
      exact hne (ColumnDef.databaseName_eq_of_mem_keys name hkey)
    rw [List.forall_mem_cons]
    refine ⟨hname, ih hnames.2 hrendered.2 ?_ ?_ hrest⟩
    . intro other hother
      refine (List.mem_cons.mp (honly.2 other hother)).resolve_left ?_
      rw [hname]
      exact ne_of_mem_of_not_mem hother hnames.1
    . intro key hkey
      rw [hkeyed', Finset.mem_sdiff, List.mem_toFinset]
      refine ⟨hkeyed key (List.mem_append_right _ hkey), ?_⟩
      intro hown
      apply hrendered.1
      rw [ColumnDef.databaseName_eq_of_mem_keys name hown]
      exact (definedKeys_sublist columns).subset hkey

theorem mem_definedKeys_iff (hnames : (columns.map (·.1)).Nodup)
    (hown : ∀ entry ∈ columns, entry.2.databaseName entry.1 = entry.1)
    {entry : String × ColumnDef} (hentry : entry ∈ columns) :
    entry.1 ∈ definedKeys columns ↔ entry.2.belongsTo.isSome := by
  rw [← @ColumnDef.databaseName_mem_keys_iff entry.2 entry.1]
  unfold definedKeys
  rw [hown entry hentry, List.mem_flatMap]
  constructor
  . intro h
    obtain ⟨other, hother, hkey⟩ := h
    have hname := ColumnDef.databaseName_eq_of_mem_keys other.1 hkey
    rw [hown other hother] at hname
    rwa [List.inj_on_of_nodup_map hnames hother hentry hname] at hkey
  . intro hkey
    exact ⟨entry, hentry, hkey⟩

theorem map_name_eq_databaseNames
    (hown : ∀ entry ∈ columns, entry.2.databaseName entry.1 = entry.1) :
    columns.map (·.1) = databaseNames columns := by
  unfold databaseNames
  apply List.map_congr_left
  intro entry hentry
  exact (hown entry hentry).symm

theorem run_dropping_eq_some_iff (connection : String) (hnames : (columns.map (·.1)).Nodup)
    (hrendered : (databaseNames columns).Nodup)
    (hnew : ∀ name ∈ databaseNames columns, name ∉ x.columns)
    (hcolumns : y.columns = x.columns ∪ (databaseNames columns).toFinset)
    (hkeyed : y.keyed = x.keyed ∪ (definedKeys columns).toFinset) :
    y.run (TableChange.dropping connection (asDrops columns)).statements = some x ↔
      ∀ entry ∈ columns, entry.2.databaseName entry.1 = entry.1 := by
  have hkeys : ∀ key ∈ definedKeys columns, key ∉ x.keyed := by
    intro key hmem hkey
    exact hnew key ((definedKeys_sublist columns).subset hmem) (x.keyed_subset hkey)
  constructor
  . intro h
    rw [TableChange.statements_dropping] at h
    obtain ⟨hpresent, hremoved⟩ := of_run_deletions h
    rw [names_asDrops] at hpresent hremoved
    apply databaseName_eq_of_run_deletions hnames hrendered _ _ h
    . intro name hname
      have hmem := hpresent name hname
      rw [hcolumns, Finset.mem_union, List.mem_toFinset] at hmem
      refine hmem.resolve_left ?_
      rw [hremoved, Finset.mem_sdiff, List.mem_toFinset]
      exact fun hkept => hkept.2 hname
    . intro key hkey
      rw [hkeyed, Finset.mem_union, List.mem_toFinset]
      exact .inr hkey
  . intro hown
    have heq := map_name_eq_databaseNames hown
    have hfits : (TableChange.dropping connection (asDrops columns)).Fits y := by
      apply TableChange.Fits.of_own_keys
      . simp [TableChange.createdNames, TableChange.dropping, bucketEntries, databaseNames]
      . simp [TableChange.createdNames, TableChange.dropping, bucketEntries, databaseNames]
      . show (([] : List String) ++ (asDrops columns).map (·.1)).Nodup
        rwa [List.nil_append, names_asDrops]
      . show ∀ name ∈ ([] : List String) ++ (asDrops columns).map (·.1), _
        rw [List.nil_append, names_asDrops, heq, hcolumns]
        intro name hname
        simp [hname]
      . simp [TableChange.dropping, bucketEntries]
      . show ∀ entry ∈ asDrops columns, _
        unfold asDrops
        rw [List.forall_mem_map]
        intro entry hentry
        rw [hkeyed, Finset.mem_union, List.mem_toFinset, mem_definedKeys_iff hnames hown hentry]
        apply or_iff_right
        intro hkey
        apply hnew entry.1 _ (x.keyed_subset hkey)
        rw [← heq]
        exact List.mem_map_of_mem hentry
      . show ∀ entry ∈ asDrops columns, _
        unfold asDrops
        rw [List.forall_mem_map]
        intro entry hentry
        exact ColumnDef.databaseName_eq_iff.mp (hown entry hentry)
    obtain ⟨w, hw, haltered⟩ := hfits.run_statements
    rw [hw, Option.some.injEq]
    apply Table.ext
    . rw [haltered.columns]
      show (y.columns ∪ ∅) \ ((asDrops columns).map (·.1)).toFinset = x.columns
      rw [names_asDrops, heq, hcolumns, Finset.union_empty]
      rw [Finset.union_sdiff_cancel_right]
      rw [Finset.disjoint_right]
      simpa using hnew
    . rw [haltered.keyed]
      show (y.keyed \ ∅) \ (droppedKeys (asDrops columns)).toFinset = x.keyed
      rw [droppedKeys_asDrops, hkeyed, Finset.sdiff_empty]
      rw [Finset.union_sdiff_cancel_right]
      rw [Finset.disjoint_right]
      simpa using hkeys

end Table

namespace ChangeSet

variable {lookup : Lookup} {options : Options} {table connection : String} {t : TableChange}
  {plan : Plan} {s : Schema} {x y : Table} {columns : List (String × ColumnDef)}

theorem exists_compileWith_alter_iff :
    (∃ plan, (alter table t).compileWith lookup options = .ok plan) ↔
      t.check table .updated = .ok () ∧
      (options.allowAmbiguousDefaults = true ∨
        ∀ column ∈ t.columnDefs, column.2.hasAmbiguousDefault = false) ∧
      ∀ r ∈ t.relations, ∃ entity, lookup r.model = .ok entity := by
  have hvalid : (alter table t).validate = .ok () ↔ t.check table .updated = .ok () := by
    have hall : (alter table t).allTables = [(.updated, table, t)] := rfl
    unfold validate
    rw [hall, checkTables_eq_ok_iff]
    simp
  have hdefined : (alter table t).definedColumns =
      t.columnDefs.map fun column => ⟨table, column.1, column.2⟩ := by
    show t.columnDefs.map _ ++ [] = _
    apply List.append_nil
  have hkept : (alter table t).keptTables = [(table, t)] := rfl
  rw [exists_compileWith_iff, hvalid, hkept, List.forall_mem_singleton]
  unfold DefaultsAllowed
  rw [hdefined, List.forall_mem_map]
  rfl

theorem exists_compileWith_addColumns_iff
    (htypes : ∀ entry ∈ columns, Text.isBlank entry.2.type = false)
    (hcomplete : ∀ entry ∈ columns, Relation.IsComplete entry.2.belongsTo)
    (hmodels : ∀ entry ∈ columns, ∀ r, entry.2.belongsTo = some r →
      ∃ entity, lookup r.model = .ok entity) :
    (∃ plan, (addColumns connection table columns).compileWith lookup options = .ok plan) ↔
      Text.isBlank connection = false ∧
      (options.allowAmbiguousDefaults = true ∨
        ∀ entry ∈ columns, entry.2.hasAmbiguousDefault = false) := by
  have hdefs : (TableChange.adding connection columns).columnDefs = columns := by
    apply List.append_nil
  unfold addColumns
  rw [exists_compileWith_alter_iff, TableChange.check_eq_ok_iff]
  rw [TableChange.checkDefined_eq_ok_iff, TableChange.checkDeleted_eq_ok_iff]
  unfold TableChange.relations
  rw [hdefs]
  have hdefined : ∀ entry ∈ columns,
      Text.isBlank entry.2.type = false ∧ Relation.IsComplete entry.2.belongsTo :=
    fun entry hentry => ⟨htypes entry hentry, hcomplete entry hentry⟩
  have hresolved : ∀ r ∈ columns.filterMap fun (_, c) => c.belongsTo,
      ∃ entity, lookup r.model = .ok entity := by
    intro r hr
    obtain ⟨entry, hentry, hrelation⟩ := List.mem_filterMap.mp hr
    exact hmodels entry hentry r hrelation
  constructor
  . intro h
    exact ⟨h.1.1, h.2.1⟩
  . intro h
    exact ⟨⟨h.1, rfl, hdefined, by simp [TableChange.adding, bucketEntries]⟩, h.2, hresolved⟩

theorem exists_compileWith_dropColumns_iff {columns : List (String × ColumnDrop)}
    (hcomplete : ∀ entry ∈ columns, Relation.IsComplete entry.2.belongsTo) :
    (∃ plan, (dropColumns connection table columns).compileWith lookup options = .ok plan) ↔
      Text.isBlank connection = false := by
  have hdefs : (TableChange.dropping connection columns).columnDefs = [] := rfl
  unfold dropColumns
  rw [exists_compileWith_alter_iff, TableChange.check_eq_ok_iff]
  rw [TableChange.checkDefined_eq_ok_iff, TableChange.checkDeleted_eq_ok_iff]
  unfold TableChange.relations
  rw [hdefs]
  constructor
  . intro h
    exact h.1.1
  . intro h
    exact ⟨⟨h, rfl, by simp, hcomplete⟩, .inr (by simp), by simp⟩

theorem runGroup_alterTable_eq {b : Block} (hlocal : ∀ statement ∈ b.statements, statement.IsLocal)
    (hplace : s b.place = some x) :
    s.runGroup (.alterTable b) =
      (x.run b.statements).map fun y => Function.update s b.place (some y) := by
  dsimp only [Schema.runGroup, Schema.runBlock]
  rw [if_pos (by simp [hplace])]
  exact Schema.foldlM_runStatement_eq hlocal hplace

theorem run_dropColumns {columns : List (String × ColumnDrop)}
    (h : (dropColumns connection table columns).compileWith lookup options = .ok plan)
    (hplace : s (connection, table) = some y) :
    s.run plan = (y.run (TableChange.dropping connection columns).statements).map fun z =>
      Function.update s (connection, table) (some z) := by
  obtain ⟨groups, hgroups, hplan⟩ := groups_of_compileWith h
  have hnone : (dropColumns connection table columns).relationshipGroups lookup = .ok [] := rfl
  rw [hnone, Except.ok.injEq] at hgroups
  unfold Schema.run
  rw [hplan, ← hgroups]
  have hrun := runGroup_alterTable_eq
    (b := ⟨connection, table, (TableChange.dropping connection columns).statements⟩)
    (TableChange.isLocal_statements _) hplace
  refine Eq.trans ?_ hrun
  exact Option.bind_fun_some _

theorem fits_addColumns (hrendered : (databaseNames columns).Nodup)
    (hnew : ∀ name ∈ databaseNames columns, name ∉ x.columns)
    (hplace : s (connection, table) = some x) : (addColumns connection table columns).Fits s where
  created := by
    intro entry hentry
    contradiction
  updated := by
    intro entry hentry
    rw [List.mem_singleton.mp hentry]
    refine ⟨x, hplace, ?_⟩
    apply TableChange.Fits.of_own_keys (t := .adding connection columns) hrendered hnew <;>
      simp [TableChange.adding, TableChange.updatedNames, TableChange.deletedNames, databaseNames,
        bucketEntries]
  deleted := by
    intro entry hentry
    contradiction

theorem run_addColumns
    (h : (addColumns connection table columns).compileWith lookup options = .ok plan)
    (hrendered : (databaseNames columns).Nodup)
    (hnew : ∀ name ∈ databaseNames columns, name ∉ x.columns)
    (hplace : s (connection, table) = some x) :
    ∃ y, s.run plan = some (Function.update s (connection, table) (some y)) ∧
      y.columns = x.columns ∪ (databaseNames columns).toFinset ∧
      y.keyed = x.keyed ∪ (definedKeys columns).toFinset := by
  obtain ⟨hvalid, _⟩ := compileWith_eq_ok_iff.mp h
  obtain ⟨groups, hgroups, hplan⟩ := groups_of_compileWith h
  obtain ⟨s₁, hrun₁, hready, hkeep₁⟩ :=
    run_definingGroups hvalid (fits_addColumns hrendered hnew hplace)
  obtain ⟨s₂, hrun₂, hkept, hkeep₂⟩ := run_relationshipGroups hvalid hgroups _ hready
  obtain ⟨x', y, hx', hy, hperformed⟩ :=
    hkept (table, .adding connection columns) (List.mem_singleton_self _)
  have hx : x' = x := by
    have hopened : some x' = s (connection, table) := hx'.symm
    rw [hplace, Option.some.injEq] at hopened
    exact hopened
  subst hx
  refine ⟨y, ?_, ?_, ?_⟩
  . unfold Schema.run
    rw [hplan, Schema.runGroups_append, Schema.runGroups_append]
    rw [hrun₁, Option.bind_some, hrun₂, Option.bind_some]
    show some s₂ = _
    rw [Option.some.injEq]
    funext place
    by_cases hsame : place = (connection, table)
    . rw [hsame, Function.update_self]
      exact hy
    . rw [Function.update_of_ne hsame]
      have hnot : place ∉ (addColumns connection table columns).keptTables.map entryPlace := by
        intro hmem
        exact hsame (List.mem_singleton.mp hmem)
      rw [hkeep₂ place hnot, hkeep₁ place hnot]
  . rw [hperformed.columns]
    show (x'.columns ∪ (databaseNames columns).toFinset) \ ∅ = _
    apply Finset.sdiff_empty
  . rw [hperformed.keyed]
    have hadded : (TableChange.adding connection columns).addedKeys = definedKeys columns := by
      unfold TableChange.addedKeys
      congr 1
      apply List.append_nil
    rw [hadded]
    show (x'.keyed \ ∅) ∪ (definedKeys columns).toFinset = _
    rw [Finset.sdiff_empty]

/--
Given columns that can be added to a table, deleting them again restores the schema just if each of
them goes by its declared name in the database: if it has a relation, the foreign key of that has to
be called like the column. A column is deleted by the name that it was added by just if this is so.
-/
theorem addColumns_reversedBy_iff (lookup : Lookup) (options : Options)
    (connection table : String) (columns : List (String × ColumnDef)) (s : Schema) (x : Table)
    (hplace : s (connection, table) = some x) (hnames : (columns.map (·.1)).Nodup)
    (hrendered : (databaseNames columns).Nodup)
    (hnew : ∀ name ∈ databaseNames columns, name ∉ x.columns)
    (htypes : ∀ entry ∈ columns, Text.isBlank entry.2.type = false)
    (hcomplete : ∀ entry ∈ columns, Relation.IsComplete entry.2.belongsTo)
    (hmodels : ∀ entry ∈ columns, ∀ r, entry.2.belongsTo = some r →
      ∃ entity, lookup r.model = .ok entity) :
    (addColumns connection table columns).ReversedBy lookup options
        (dropColumns connection table (asDrops columns)) s ↔
      Text.isBlank connection = false ∧
      (options.allowAmbiguousDefaults = true ∨
        ∀ entry ∈ columns, entry.2.hasAmbiguousDefault = false) ∧
      ∀ entry ∈ columns, .dropColumn (entry.2.databaseName entry.1) ∈
        (ColumnDrop.mk entry.2.belongsTo).deletion entry.1 connection := by
  simp only [ColumnDrop.dropColumn_mem_deletion_iff]
  have hdropped : ∀ entry ∈ asDrops columns, Relation.IsComplete entry.2.belongsTo := by
    unfold asDrops
    rw [List.forall_mem_map]
    exact hcomplete
  have hadds : (∃ plan, (addColumns connection table columns).compileWith lookup options =
      .ok plan) ↔ _ := exists_compileWith_addColumns_iff htypes hcomplete hmodels
  constructor
  . intro h
    obtain ⟨upPlan, downPlan, s', hup, hdown, hrun, hback⟩ := h
    obtain ⟨hconnection, hdefaults⟩ := hadds.mp ⟨upPlan, hup⟩
    obtain ⟨y, hrun', hcolumns, hkeyed⟩ := run_addColumns hup hrendered hnew hplace
    rw [hrun, Option.some.injEq] at hrun'
    rw [hrun', run_dropColumns hdown (Function.update_self _ _ _)] at hback
    obtain ⟨w, hw, hrestored⟩ := Option.map_eq_some_iff.mp hback
    have hwx : some w = some x := by
      rw [← hplace, ← hrestored, Function.update_self]
    rw [hwx] at hw
    exact ⟨hconnection, hdefaults,
      (Table.run_dropping_eq_some_iff connection hnames hrendered hnew hcolumns hkeyed).mp hw⟩
  . intro h
    obtain ⟨hconnection, hdefaults, hown⟩ := h
    obtain ⟨upPlan, hup⟩ := hadds.mpr ⟨hconnection, hdefaults⟩
    obtain ⟨downPlan, hdown⟩ : ∃ plan, (dropColumns connection table (asDrops columns)).compileWith
        lookup options = .ok plan := (exists_compileWith_dropColumns_iff hdropped).mpr hconnection
    obtain ⟨y, hrun, hcolumns, hkeyed⟩ := run_addColumns hup hrendered hnew hplace
    have hback :=
      (Table.run_dropping_eq_some_iff connection hnames hrendered hnew hcolumns hkeyed).mpr hown
    refine ⟨upPlan, downPlan, _, hup, hdown, hrun, ?_⟩
    rw [run_dropColumns hdown (Function.update_self _ _ _), hback, Option.map_some]
    rw [Option.some.injEq, Function.update_idem, Function.update_eq_self_iff]
    exact hplace.symm

end ChangeSet

def ownerColumns : List (String × ColumnDef) := [
  ("title", { type := "string" }),
  ("owner_id", { type := "integer", belongsTo := some ⟨"owner_id", "User"⟩ })]

theorem ownerColumns_reversedBy :
    (ChangeSet.addColumns "main" "posts" ownerColumns).ReversedBy blogRegistry.lookup {}
      (ChangeSet.dropColumns "main" "posts" [
        ("title", ⟨none⟩), ("owner_id", ⟨some ⟨"owner_id", "User"⟩⟩)]) blogSchema := by
  have htypes : ∀ entry ∈ ownerColumns, Text.isBlank entry.2.type = false := by decide
  have hcomplete : ∀ entry ∈ ownerColumns, Relation.IsComplete entry.2.belongsTo := by
    simp [ownerColumns, Relation.IsComplete]
    decide
  have hmodels : ∀ entry ∈ ownerColumns, ∀ r, entry.2.belongsTo = some r →
      ∃ entity, blogRegistry.lookup r.model = .ok entity := by
    simp [ownerColumns]
    exact ⟨_, rfl⟩
  apply (ChangeSet.addColumns_reversedBy_iff blogRegistry.lookup {} "main" "posts" ownerColumns
    blogSchema .empty rfl (by decide) (by decide) (by decide) htypes hcomplete hmodels).mpr
  refine ⟨by decide, .inr (by decide), ?_⟩
  simp [ownerColumns, ColumnDrop.dropColumn_mem_deletion_iff, ColumnDef.databaseName]

-- The column is added as "author_id" and dropped as "author", which is not there.
theorem author_not_dropped :
    ∃ upPlan downPlan s',
      (ChangeSet.addColumns "main" "posts"
        [("author", { type := "integer", belongsTo := some ⟨"author_id", "User"⟩ })]).compileWith
          blogRegistry.lookup {} = .ok upPlan ∧
      (ChangeSet.dropColumns "main" "posts"
        [("author", ⟨some ⟨"author_id", "User"⟩⟩)]).compileWith
          blogRegistry.lookup {} = .ok downPlan ∧
      blogSchema.run upPlan = some s' ∧ s'.run downPlan = none :=
  ⟨_, _, _, rfl, rfl, rfl, rfl⟩

end SchemaMigration
