import SchemaMigration.Proofs.Accounting
import SchemaMigration.Proofs.Execution

/-!
This module contains the account of the foreign keys in a plan. A key that is dropped for a column
is dropped right in front of the statement for this column, and every key of a defined column is
added once, after all tables are there. So a key that is dropped for a change comes back.
-/

namespace SchemaMigration

-- A dropping of keys, with the statement before it and the two statements after it.
structure KeyDrop where
  before : Option Statement
  columns : List String
  after : List Statement

namespace Statement

def droppedKeys? : Statement → Option (List String)
  | .dropForeign columns => some columns
  | _ => none

def addedKey? : Statement → Option String
  | .foreign key => some key.column
  | _ => none

def changesColumn : Statement → Bool
  | .column call => call.change
  | _ => false

end Statement

-- All droppings of keys in a list of statements, given the statement in front of the list.
def keyDrops (before : Option Statement) : List Statement → List KeyDrop
  | [] => []
  | statement :: rest =>
    (statement.droppedKeys?.map fun columns => ⟨before, columns, rest.take 2⟩).toList
      ++ keyDrops (some statement) rest

namespace KeyDrop

def around (connection key : String) (next : Statement) : KeyDrop where
  before := some (.connection (.disableForeignKeys connection))
  columns := [key]
  after := [.connection (.enableForeignKeys connection), next]

def Changes (connection : String) (entry : String × ColumnDef) (drop : KeyDrop) : Prop :=
  ∃ r call, entry.2.belongsTo = some r ∧ call = entry.2.call entry.1 true ∧
    call.change = true ∧ call.name? = some r.foreignKey ∧
    drop = around connection r.foreignKey (.column call)

def Deletes (connection : String) (entry : String × ColumnDrop) (drop : KeyDrop) : Prop :=
  ∃ r, entry.2.belongsTo = some r ∧ drop = around connection r.foreignKey (.dropColumn entry.1)

def changedKeys (drop : KeyDrop) : List String :=
  if drop.after.any Statement.changesColumn then drop.columns else []

end KeyDrop

def Statement.AddsKey (lookup : Lookup) (entry : String × ColumnDef) (statement : Statement) :
    Prop :=
  ∃ r entity, entry.2.belongsTo = some r ∧ lookup r.model = .ok entity ∧
    statement = .foreign ⟨r.foreignKey, entity.primaryKey, entity.table⟩

namespace Group

def DropsKeys (entry : String × TableChange) (group : Group) : Prop :=
  ∃ statements changes deletions,
    group = .alterTable ⟨entry.2.connection, entry.1, statements⟩ ∧
    keyDrops none statements = changes ++ deletions ∧
    List.Forall₂ (KeyDrop.Changes entry.2.connection)
      ((bucketEntries entry.2.updated).filter (·.2.belongsTo.isSome)) changes ∧
    List.Forall₂ (KeyDrop.Deletes entry.2.connection)
      ((bucketEntries entry.2.deleted).filter (·.2.belongsTo.isSome)) deletions

def AddsKeys (lookup : Lookup) (entry : String × TableChange) (group : Group) : Prop :=
  ∃ statements, group = .alterTable ⟨entry.2.connection, entry.1, statements⟩ ∧
    List.Forall₂ (Statement.AddsKey lookup)
      (entry.2.columnDefs.filter (·.2.belongsTo.isSome)) statements

def block? : Group → Option Block
  | .createTable block => some block
  | .alterTable block => some block
  | .calls _ => none
  | .comment _ => none

end Group

namespace Block

def addedKeys (b : Block) : List String := b.statements.filterMap Statement.addedKey?

def changedKeys (b : Block) : List String := (keyDrops none b.statements).flatMap (·.changedKeys)

end Block

namespace Plan

def blocks (p : Plan) : List Block := p.groups.filterMap Group.block?

def blocksAt (p : Plan) (place : String × String) : List Block :=
  p.blocks.filter (·.place = place)

end Plan

def TableChange.hasRelations (t : TableChange) : Bool :=
  t.columnDefs.any (·.2.belongsTo.isSome)

/--
The account of the foreign keys in a plan: all additions are in one pass, which is there if there is
anything to add, and all droppings are among the updates, each for one column. At the place of an
updated table, its connection and name, the keys that its created columns have and those that were
dropped for changes are what is added.
-/
structure Plan.AccountsKeys (p : Plan) (lookup : Lookup) (cs : ChangeSet) : Prop where
  exists_iff : (∃ pass ∈ p.passes, pass.kind = .relationships) ↔
    ∃ entry ∈ cs.keptTables, ∃ column ∈ entry.2.columnDefs, column.2.belongsTo.isSome
  added : ∀ pass ∈ p.passes, pass.kind = .relationships → ∃ text groups,
    pass.groups = .comment text :: groups ∧
    List.Forall₂ (Group.AddsKeys lookup) (cs.keptTables.filter (·.2.hasRelations)) groups
  once : (p.passes.filter (·.kind = .relationships)).length ≤ 1
  dropped : List.Forall₂ Group.DropsKeys (cs.tables .updated) (p.groupsOf .updatedTables)
  only_dropped : ∀ pass ∈ p.passes, pass.kind ≠ .updatedTables →
    ∀ block ∈ pass.groups.filterMap Group.block?, keyDrops none block.statements = []
  readded : ∀ entry ∈ cs.tables .updated,
    (p.blocksAt (entryPlace entry)).flatMap (·.addedKeys) =
      definedKeys (bucketEntries entry.2.created) ++
        (p.blocksAt (entryPlace entry)).flatMap (·.changedKeys)

-- The droppings in a list of statements do not depend on what is around it.
def DropsAre (statements : List Statement) (drops : List KeyDrop) : Prop :=
  ∀ before rest, ∃ last, keyDrops before (statements ++ rest) = drops ++ keyDrops last rest

theorem keyDrops_cons_of_none {statement : Statement} (h : statement.droppedKeys? = none)
    (before : Option Statement) (rest : List Statement) :
    keyDrops before (statement :: rest) = keyDrops (some statement) rest := by
  rw [keyDrops, h]
  rfl

namespace DropsAre

variable {statements statements' : List Statement} {drops drops' : List KeyDrop}

theorem keyDrops_eq (h : DropsAre statements drops) : keyDrops none statements = drops := by
  cases h none [] with
  | intro last hlast => simpa [keyDrops] using hlast

theorem nil : DropsAre [] [] := by
  intro before rest
  exact ⟨before, rfl⟩

theorem append (h : DropsAre statements drops) (h' : DropsAre statements' drops') :
    DropsAre (statements ++ statements') (drops ++ drops') := by
  intro before rest
  cases h before (statements' ++ rest) with
  | intro last hlast =>
    cases h' last rest with
    | intro last' hlast' =>
      exists last'
      rw [List.append_assoc, hlast, hlast', List.append_assoc]

theorem flatMap {α : Type} {f : α → List Statement} {g : α → List KeyDrop} {xs : List α}
    (h : ∀ x ∈ xs, DropsAre (f x) (g x)) : DropsAre (xs.flatMap f) (xs.flatMap g) := by
  induction xs with
  | nil => exact nil
  | cons x xs ih =>
    rw [List.flatMap_cons, List.flatMap_cons]
    apply append
    . apply h
      simp
    . apply ih
      intro y hy
      apply h
      simp [hy]

theorem of_forall (h : ∀ statement ∈ statements, statement.droppedKeys? = none) :
    DropsAre statements [] := by
  intro before rest
  induction statements generalizing before with
  | nil => exact ⟨before, rfl⟩
  | cons statement statements ih =>
    rw [List.forall_mem_cons] at h
    rw [List.cons_append, keyDrops_cons_of_none h.1]
    apply ih h.2

end DropsAre

theorem Relation.dropsAre_dropKey_append {next : Statement} (hnext : next.droppedKeys? = none)
    (relation : Option Relation) (connection : String) :
    DropsAre (dropKey relation connection ++ [next])
      (relation.map fun r => .around connection r.foreignKey next).toList := by
  cases relation with
  | none =>
    apply DropsAre.of_forall
    simp [dropKey, hnext]
  | some r =>
    intro before rest
    exists some next
    simp only [dropKey, dropKeys, List.cons_append, List.nil_append]
    rw [keyDrops_cons_of_none rfl]
    rw [keyDrops]
    rw [keyDrops_cons_of_none rfl]
    rw [keyDrops_cons_of_none hnext]
    rfl

namespace TableChange

def changeDrops (t : TableChange) : List KeyDrop :=
  (bucketEntries t.updated).filterMap fun entry =>
    entry.2.belongsTo.map fun r =>
      .around t.connection r.foreignKey (.column (entry.2.call entry.1 true))

def deletionDrops (t : TableChange) : List KeyDrop :=
  (bucketEntries t.deleted).filterMap fun entry =>
    entry.2.belongsTo.map fun r => .around t.connection r.foreignKey (.dropColumn entry.1)

theorem dropsAre_creations (t : TableChange) :
    DropsAre ((bucketEntries t.created).map fun (name, c) => c.creation name) [] := by
  apply DropsAre.of_forall
  rw [List.forall_mem_map]
  intros
  rfl

theorem dropsAre_updates (t : TableChange) :
    DropsAre ((bucketEntries t.updated).flatMap fun (name, c) => c.update name t.connection)
      t.changeDrops := by
  unfold changeDrops
  rw [List.filterMap_eq_flatMap_toList]
  apply DropsAre.flatMap
  intros
  apply Relation.dropsAre_dropKey_append
  rfl

theorem dropsAre_deletions (t : TableChange) :
    DropsAre ((bucketEntries t.deleted).flatMap fun (name, c) => c.deletion name t.connection)
      t.deletionDrops := by
  unfold deletionDrops
  rw [List.filterMap_eq_flatMap_toList]
  apply DropsAre.flatMap
  intros
  apply Relation.dropsAre_dropKey_append
  rfl

theorem keyDrops_statements (t : TableChange) :
    keyDrops none t.statements = t.changeDrops ++ t.deletionDrops := by
  apply DropsAre.keyDrops_eq
  unfold statements
  apply DropsAre.append
  . rw [← List.nil_append t.changeDrops]
    apply DropsAre.append
    . exact t.dropsAre_creations
    . exact t.dropsAre_updates
  . exact t.dropsAre_deletions

end TableChange

theorem forall₂_filter_isSome {α β γ : Type} {R : β → γ → Prop} {f : α → Option β} {xs : List α}
    {ys : List γ} (h : List.Forall₂ R (xs.filterMap f) ys) :
    List.Forall₂ (fun x y => ∃ b, f x = some b ∧ R b y) (xs.filter fun x => (f x).isSome) ys := by
  induction xs generalizing ys with
  | nil => simpa using h
  | cons x xs ih =>
    cases hx : f x with
    | none =>
      rw [List.filterMap_cons_none hx] at h
      rw [List.filter_cons_of_neg (by simp [hx])]
      exact ih h
    | some b =>
      rw [List.filterMap_cons_some hx, List.forall₂_cons_left_iff] at h
      rw [List.filter_cons_of_pos (by simp [hx])]
      obtain ⟨y, zs, hR, hzs, rfl⟩ := h
      exact .cons ⟨b, hx, hR⟩ (ih hzs)

theorem forall₂_filter_filterMap {α β γ : Type} (f : α → Option β) (g : α → β → γ) (xs : List α) :
    List.Forall₂ (fun x y => ∃ b, f x = some b ∧ y = g x b) (xs.filter fun x => (f x).isSome)
      (xs.filterMap fun x => (f x).map (g x)) := by
  have hmade : List.Forall₂ Eq (xs.filterMap fun x => (f x).map (g x)) _ :=
    List.forall₂_eq_eq_eq ▸ rfl
  have hmatched := forall₂_filter_isSome hmade
  simp only [Option.isSome_map] at hmatched
  apply hmatched.imp
  simp [eq_comm]

namespace TableChange

variable (t : TableChange)

theorem changes_changeDrops :
    List.Forall₂ (KeyDrop.Changes t.connection)
      ((bucketEntries t.updated).filter (·.2.belongsTo.isSome)) t.changeDrops := by
  apply (forall₂_filter_filterMap (fun entry : String × ColumnDef => entry.2.belongsTo) _ _).imp
  intro entry drop h
  obtain ⟨r, hr, hdrop⟩ := h
  refine ⟨r, _, hr, rfl, rfl, ?_, hdrop⟩
  simp [ColumnDef.databaseName, hr]

theorem deletes_deletionDrops :
    List.Forall₂ (KeyDrop.Deletes t.connection)
      ((bucketEntries t.deleted).filter (·.2.belongsTo.isSome)) t.deletionDrops :=
  forall₂_filter_filterMap (fun entry : String × ColumnDrop => entry.2.belongsTo) _ _

theorem flatMap_changedKeys_changeDrops :
    t.changeDrops.flatMap (·.changedKeys) = definedKeys (bucketEntries t.updated) := by
  unfold changeDrops definedKeys
  rw [List.filterMap_eq_flatMap_toList, List.flatMap_assoc]
  apply List.flatMap_congr
  intro entry _
  dsimp only
  cases entry.2.belongsTo <;> rfl

theorem flatMap_changedKeys_deletionDrops :
    t.deletionDrops.flatMap (·.changedKeys) = [] := by
  unfold deletionDrops
  rw [List.filterMap_eq_flatMap_toList, List.flatMap_assoc]
  rw [List.flatMap_eq_nil_iff]
  intro entry _
  cases entry.2.belongsTo <;> rfl

theorem flatMap_changedKeys_statements :
    (keyDrops none t.statements).flatMap (·.changedKeys) =
      definedKeys (bucketEntries t.updated) := by
  rw [keyDrops_statements, List.flatMap_append]
  rw [flatMap_changedKeys_changeDrops, flatMap_changedKeys_deletionDrops]
  apply List.append_nil

variable {t} in
theorem forall_mem_statements {P : Statement → Prop} (hcolumn : ∀ call, P (.column call))
    (hdropColumn : ∀ name, P (.dropColumn name))
    (hdropKey : ∀ relation, ∀ statement ∈ Relation.dropKey relation t.connection, P statement) :
    ∀ statement ∈ t.statements, P statement := by
  unfold statements ColumnDef.update ColumnDrop.deletion
  simp only [List.forall_mem_append, List.forall_mem_map, List.forall_mem_flatMap]
  refine ⟨⟨?_, ?_⟩, ?_⟩
  . intro entry _
    apply hcolumn
  . intro entry _
    simpa [hcolumn] using hdropKey _
  . intro entry _
    simpa [hdropColumn] using hdropKey _

-- The keys of defined columns are added elsewhere.
theorem filterMap_addedKey?_statements : t.statements.filterMap Statement.addedKey? = [] := by
  rw [List.filterMap_eq_nil_iff]
  apply forall_mem_statements
  . intros
    rfl
  . intros
    rfl
  . intro relation
    cases relation <;> simp [Relation.dropKey, dropKeys, Statement.addedKey?]

end TableChange

namespace ChangeSet

variable {lookup : Lookup} {options : Options} {cs : ChangeSet} {plan : Plan}

theorem dropsKeys_updateGroups (cs : ChangeSet) :
    List.Forall₂ Group.DropsKeys (cs.tables .updated) cs.updateGroups := by
  unfold updateGroups
  rw [List.forall₂_map_right_iff, List.forall₂_same]
  intro entry _
  exact ⟨_, _, _, rfl, entry.2.keyDrops_statements, entry.2.changes_changeDrops,
    entry.2.deletes_deletionDrops⟩

theorem addsKeys_relationshipGroup {entry : String × TableChange} {group : Group}
    (h : entry.2.relationshipGroup lookup entry.1 = .ok group) : group.AddsKeys lookup entry := by
  obtain ⟨keys, hkeys, heq⟩ := TableChange.relationshipGroup_eq_ok_iff.mp h
  refine ⟨_, heq, ?_⟩
  rw [List.forall₂_map_right_iff]
  apply (forall₂_filter_isSome hkeys).imp
  intro column key hcolumn
  obtain ⟨r, hr, hkey⟩ := hcolumn
  obtain ⟨entity, hentity, heq⟩ := Relation.resolve_eq_ok_iff.mp hkey
  exact ⟨r, entity, hr, hentity, congrArg _ heq⟩

theorem hasRelations_iff {t : TableChange} : t.hasRelations = true ↔ t.relations ≠ [] := by
  unfold TableChange.hasRelations TableChange.relations
  rw [List.any_eq_true, Ne, List.filterMap_eq_nil_iff]
  simp [Option.isSome_iff_ne_none]

theorem relatedTables_eq (cs : ChangeSet) :
    cs.relatedTables = cs.keptTables.filter (·.2.hasRelations) := by
  unfold relatedTables
  apply List.filter_congr
  intro entry _
  rw [Bool.eq_iff_iff, hasRelations_iff]
  simp

theorem relationshipGroups_cases {groups : List Group}
    (h : cs.relationshipGroups lookup = .ok groups) :
    (groups = [] ∧ cs.keptTables.filter (·.2.hasRelations) = []) ∨
    ∃ keyGroups, groups = .comment keysComment :: keyGroups ∧
      cs.keptTables.filter (·.2.hasRelations) ≠ [] ∧
      List.Forall₂ (Group.AddsKeys lookup) (cs.keptTables.filter (·.2.hasRelations)) keyGroups := by
  obtain ⟨keyGroups, hkeys, heq⟩ := relationshipGroups_eq_ok_iff.mp h
  rw [relatedTables_eq] at hkeys
  cases keyGroups with
  | nil => exact Or.inl ⟨heq, List.forall₂_nil_right_iff.mp hkeys⟩
  | cons group keyGroups =>
    refine Or.inr ⟨_, heq, ?_, hkeys.imp fun _ _ hgroup => addsKeys_relationshipGroup hgroup⟩
    intro hnone
    rw [hnone] at hkeys
    cases hkeys

theorem definedKeys_append (columns columns' : List (String × ColumnDef)) :
    definedKeys (columns ++ columns') = definedKeys columns ++ definedKeys columns' :=
  List.flatMap_append

theorem definedKeys_filter (columns : List (String × ColumnDef)) :
    definedKeys (columns.filter (·.2.belongsTo.isSome)) = definedKeys columns := by
  induction columns with
  | nil => rfl
  | cons entry columns ih =>
    obtain ⟨name, c⟩ := entry
    cases hrelation : c.belongsTo with
    | none =>
      rw [List.filter_cons_of_neg (by simp [hrelation])]
      rw [ih, definedKeys_cons, hrelation]
      rfl
    | some r =>
      rw [List.filter_cons_of_pos (by simp [hrelation])]
      rw [definedKeys_cons, definedKeys_cons, ih]

theorem filterMap_addedKey?_of_addsKey {columns : List (String × ColumnDef)}
    {statements : List Statement} (h : List.Forall₂ (Statement.AddsKey lookup) columns statements) :
    statements.filterMap Statement.addedKey? = definedKeys columns := by
  induction h with
  | nil => rfl
  | @cons entry statement columns statements hkey _ ih =>
    obtain ⟨r, entity, hr, _, heq⟩ := hkey
    obtain ⟨name, c⟩ := entry
    have hkeys : Relation.keys c.belongsTo = [r.foreignKey] := by
      rw [hr]
      rfl
    rw [heq, definedKeys_cons, hkeys, ← ih]
    rfl

theorem keyDrops_eq_nil_of_addsKey {columns : List (String × ColumnDef)}
    {statements : List Statement} (h : List.Forall₂ (Statement.AddsKey lookup) columns statements) :
    keyDrops none statements = [] := by
  apply DropsAre.keyDrops_eq
  apply DropsAre.of_forall
  intro statement hmem
  obtain ⟨entry, _, r, entity, _, _, heq⟩ := exists_of_forall₂_of_mem h hmem
  rw [heq]
  rfl

theorem filter_place_eq_nil {entries : List (String × TableChange)} {place : String × String}
    (h : place ∉ entries.map entryPlace) : entries.filter (entryPlace · = place) = [] := by
  rw [List.filter_eq_nil_iff]
  intro entry hentry heq
  apply h
  rw [List.mem_map]
  exact ⟨entry, hentry, of_decide_eq_true heq⟩

theorem filter_place_eq_singleton {entries : List (String × TableChange)}
    (hnodup : (entries.map entryPlace).Nodup) {entry : String × TableChange}
    (hentry : entry ∈ entries) : entries.filter (entryPlace · = entryPlace entry) = [entry] := by
  obtain ⟨before, after, heq⟩ := List.append_of_mem hentry
  rw [heq, List.map_append, List.map_cons, List.nodup_middle, List.nodup_cons] at hnodup
  rw [List.mem_append, not_or] at hnodup
  rw [heq, List.filter_append, List.filter_cons_of_pos (by simp)]
  rw [filter_place_eq_nil hnodup.1.1, filter_place_eq_nil hnodup.1.2]
  rfl

def tableBlock (entry : String × TableChange) : Block :=
  ⟨entry.2.connection, entry.1, entry.2.statements⟩

theorem filter_place_map_tableBlock (entries : List (String × TableChange))
    (place : String × String) :
    (entries.map tableBlock).filter (·.place = place) =
      (entries.filter (entryPlace · = place)).map tableBlock :=
  List.filter_map

def Block.AddsKeys (entry : String × TableChange) (block : Block) : Prop :=
  block.place = entryPlace entry ∧ block.addedKeys = definedKeys entry.2.columnDefs ∧
    block.changedKeys = []

theorem forall₂_filter_place {entries : List (String × TableChange)} {blocks : List Block}
    (h : List.Forall₂ Block.AddsKeys entries blocks) (place : String × String) :
    List.Forall₂ Block.AddsKeys (entries.filter (entryPlace · = place))
      (blocks.filter (·.place = place)) := by
  induction h with
  | nil => exact .nil
  | cons hblock _ ih =>
    rw [List.filter_cons, List.filter_cons, hblock.1]
    split
    . exact .cons hblock ih
    . exact ih

theorem forall₂_keyBlocks {entries : List (String × TableChange)} {groups : List Group}
    (h : List.Forall₂ (Group.AddsKeys lookup) entries groups) :
    List.Forall₂ Block.AddsKeys entries (groups.filterMap Group.block?) := by
  induction h with
  | nil => exact .nil
  | cons hgroup _ ih =>
    obtain ⟨statements, heq, hkeys⟩ := hgroup
    rw [heq]
    refine .cons ⟨rfl, ?_, ?_⟩ ih
    . unfold Block.addedKeys
      rw [filterMap_addedKey?_of_addsKey hkeys, definedKeys_filter]
    . unfold Block.changedKeys
      rw [keyDrops_eq_nil_of_addsKey hkeys]
      rfl

theorem filterMap_block?_deletionGroups (cs : ChangeSet) :
    cs.deletionGroups.filterMap Group.block? = [] := by
  rw [List.filterMap_eq_nil_iff]
  intro group hgroup
  obtain ⟨entry, _, heq⟩ := List.mem_map.mp hgroup
  rw [← heq]
  rfl

theorem blocks_of_compileWith (h : cs.compileWith lookup options = .ok plan) :
    ∃ keyBlocks, plan.blocks =
      (cs.tables .created).map tableBlock ++ (cs.tables .updated).map tableBlock ++ keyBlocks ∧
      List.Forall₂ Block.AddsKeys (cs.keptTables.filter (·.2.hasRelations)) keyBlocks := by
  obtain ⟨groups, hgroups, heq⟩ := groups_of_compileWith h
  refine ⟨groups.filterMap Group.block?, ?_, ?_⟩
  . unfold Plan.blocks
    rw [heq]
    simp only [List.filterMap_append, filterMap_block?_deletionGroups, List.append_nil]
    unfold creationGroups updateGroups
    rw [List.filterMap_map, List.filterMap_map]
    rw [← List.filterMap_eq_map]
    rfl
  . cases relationshipGroups_cases hgroups with
    | inl hnone =>
      rw [hnone.1, hnone.2]
      exact .nil
    | inr hsome =>
      obtain ⟨keyGroups, hgroups, _, hkeys⟩ := hsome
      have hkeyBlocks := forall₂_keyBlocks hkeys
      rw [hgroups]
      exact hkeyBlocks

theorem blocksAt_updated (h : cs.compileWith lookup options = .ok plan)
    {entry : String × TableChange} (hentry : entry ∈ cs.tables .updated) :
    ∃ keyBlocks, plan.blocksAt (entryPlace entry) = tableBlock entry :: keyBlocks ∧
      List.Forall₂ Block.AddsKeys ([entry].filter (·.2.hasRelations)) keyBlocks := by
  have hvalid := (compileWith_eq_ok_iff.mp h).1
  have hupdated := (createdPlaces_append_nodup hvalid).of_append_right
  have hkept : entry ∈ cs.keptTables := List.mem_append_right _ hentry
  obtain ⟨keyBlocks, hblocks, hkeyBlocks⟩ := blocks_of_compileWith h
  refine ⟨keyBlocks.filter (·.place = entryPlace entry), ?_, ?_⟩
  . unfold Plan.blocksAt
    rw [hblocks]
    rw [List.filter_append, List.filter_append]
    rw [filter_place_map_tableBlock, filter_place_map_tableBlock]
    rw [filter_place_eq_nil (not_mem_createdPlaces hvalid hentry)]
    rw [filter_place_eq_singleton hupdated hentry]
    rfl
  . rw [← filter_place_eq_singleton (keptPlaces_nodup hvalid) hkept]
    rw [List.filter_comm]
    exact forall₂_filter_place hkeyBlocks _

theorem definedKeys_eq_nil {t : TableChange} (h : t.hasRelations = false) :
    definedKeys t.columnDefs = [] := by
  unfold TableChange.hasRelations at h
  rw [List.any_eq_false] at h
  rw [← definedKeys_filter, List.filter_eq_nil_iff.mpr h]
  rfl

theorem readded (h : cs.compileWith lookup options = .ok plan) {entry : String × TableChange}
    (hentry : entry ∈ cs.tables .updated) :
    (plan.blocksAt (entryPlace entry)).flatMap (·.addedKeys) =
      definedKeys (bucketEntries entry.2.created) ++
        (plan.blocksAt (entryPlace entry)).flatMap (·.changedKeys) := by
  obtain ⟨keyBlocks, hblocks, hkeyBlocks⟩ := blocksAt_updated h hentry
  have hadded : (tableBlock entry).addedKeys = [] := entry.2.filterMap_addedKey?_statements
  have hchanged : (tableBlock entry).changedKeys = definedKeys (bucketEntries entry.2.updated) :=
    entry.2.flatMap_changedKeys_statements
  have hall : definedKeys entry.2.columnDefs =
      definedKeys (bucketEntries entry.2.created) ++ definedKeys (bucketEntries entry.2.updated) :=
    definedKeys_append _ _
  rw [hblocks, List.flatMap_cons, List.flatMap_cons]
  rw [hadded, hchanged, List.nil_append, ← List.append_assoc, ← hall]
  cases hrelations : entry.2.hasRelations with
  | true =>
    rw [List.filter_cons_of_pos (by exact hrelations)] at hkeyBlocks
    obtain ⟨block, rest, hblock, hrest, rfl⟩ := List.forall₂_cons_left_iff.mp hkeyBlocks
    rw [List.forall₂_nil_left_iff.mp hrest]
    simp [hblock.2]
  | false =>
    rw [List.filter_cons_of_neg (by simp [hrelations])] at hkeyBlocks
    rw [List.forall₂_nil_left_iff.mp hkeyBlocks]
    simp [definedKeys_eq_nil hrelations]

theorem relationships_iff {groups : List Group} {pass : Pass}
    (heq : plan = ⟨(cs.passes groups).filter fun pass => !pass.groups.isEmpty⟩) :
    pass ∈ plan.passes ∧ pass.kind = .relationships ↔
      groups ≠ [] ∧ pass = ⟨.relationships, groups⟩ := by
  rw [heq]
  simp only [passes, List.mem_filter, List.mem_cons, List.not_mem_nil, or_false]
  constructor
  . intro h
    obtain ⟨⟨rfl | rfl | rfl | rfl, hsome⟩, hkind⟩ := h <;> simp_all
  . intro h
    simp [h.1, h.2]

theorem hasRelations_exists_iff :
    cs.keptTables.filter (·.2.hasRelations) ≠ [] ↔
      ∃ entry ∈ cs.keptTables, ∃ column ∈ entry.2.columnDefs, column.2.belongsTo.isSome := by
  rw [Ne, List.filter_eq_nil_iff]
  unfold TableChange.hasRelations
  simp only [List.any_eq_true, not_forall, not_not, exists_prop]

theorem keyDrops_creationGroups (h : cs.validate = .ok ()) :
    ∀ block ∈ cs.creationGroups.filterMap Group.block?, keyDrops none block.statements = [] := by
  intro block hblock
  obtain ⟨group, hgroup, hblock⟩ := List.mem_filterMap.mp hblock
  obtain ⟨entry, hentry, rfl⟩ := List.mem_map.mp hgroup
  obtain rfl := Option.some.inj hblock
  have honly := only_created_of_validate h hentry
  rw [TableChange.keyDrops_statements]
  unfold TableChange.changeDrops TableChange.deletionDrops
  rw [honly.1, honly.2]
  rfl

theorem keyDrops_relationshipGroups {groups : List Group}
    (h : cs.relationshipGroups lookup = .ok groups) :
    ∀ block ∈ groups.filterMap Group.block?, keyDrops none block.statements = [] := by
  cases relationshipGroups_cases h with
  | inl hnone => simp [hnone.1]
  | inr hsome =>
    obtain ⟨keyGroups, hgroups, _, hkeys⟩ := hsome
    intro block hblock
    rw [hgroups, List.filterMap_cons_none rfl] at hblock
    obtain ⟨group, hgroup, hblock⟩ := List.mem_filterMap.mp hblock
    obtain ⟨entry, _, statements, rfl, hstatements⟩ := exists_of_forall₂_of_mem hkeys hgroup
    obtain rfl := Option.some.inj hblock
    exact keyDrops_eq_nil_of_addsKey hstatements

theorem compileWith_accountsKeys (h : cs.compileWith lookup options = .ok plan) :
    plan.AccountsKeys lookup cs := by
  obtain ⟨hvalid, _, groups, hgroups, heq⟩ := compileWith_eq_ok_iff.mp h
  have hcases := relationshipGroups_cases hgroups
  constructor
  case exists_iff =>
    simp only [relationships_iff heq, exists_and_left, exists_eq, and_true]
    rw [← hasRelations_exists_iff]
    grind
  case added =>
    intro pass hpass hkind
    obtain ⟨hsome, rfl⟩ := (relationships_iff heq).mp ⟨hpass, hkind⟩
    cases hcases with
    | inl hnone => exact absurd hnone.1 hsome
    | inr hkeys =>
      obtain ⟨keyGroups, hgroups, _, hkeys⟩ := hkeys
      exact ⟨keysComment, keyGroups, hgroups, hkeys⟩
  case once =>
    rw [heq, List.filter_comm]
    apply Nat.le_trans (List.length_filter_le _ _)
    simp [passes]
  case dropped =>
    rw [heq, groupsOf_filter_passes]
    simpa [passes] using dropsKeys_updateGroups cs
  case only_dropped =>
    intro pass hpass hkind
    rw [heq] at hpass
    have hmem := (List.mem_filter.mp hpass).1
    simp only [passes, List.mem_cons, List.not_mem_nil, or_false] at hmem
    obtain rfl | rfl | rfl | rfl := hmem
    . exact keyDrops_creationGroups hvalid
    . contradiction
    . exact keyDrops_relationshipGroups hgroups
    . simp [filterMap_block?_deletionGroups]
  case readded =>
    intro entry hentry
    exact readded h hentry

end ChangeSet

theorem blogChanges_accountsKeys :
    ∃ plan, blogChanges.compileWith blogRegistry.lookup {} = .ok plan ∧
      plan.AccountsKeys blogRegistry.lookup blogChanges := by
  obtain ⟨plan, h⟩ := exists_blogPlan
  exact ⟨plan, h, ChangeSet.compileWith_accountsKeys h⟩

end SchemaMigration
