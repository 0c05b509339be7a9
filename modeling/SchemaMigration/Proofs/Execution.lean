import SchemaMigration.Proofs.Compile
import SchemaMigration.Proofs.TableRun
import SchemaMigration.Proofs.Validate

/-!
This module contains the running of whole plans. If a change set fits a schema, then its plan runs
to its end on the schema, and what it leaves behind is just what the change set asks for.
-/

namespace SchemaMigration

def entryPlace (entry : String × TableChange) : String × String :=
  (entry.2.connection, entry.1)

theorem Relation.isLocal_dropKey_append {relation : Option Relation} {connection : String}
    {statement last : Statement} (hmem : statement ∈ dropKey relation connection ++ [last])
    (hlast : last.IsLocal) : statement.IsLocal := by
  have hkey : ∀ other ∈ dropKey relation connection, other.IsLocal := by
    cases relation <;> simp [dropKey, dropKeys, Statement.IsLocal]
  cases List.mem_append.mp hmem with
  | inl hmem => exact hkey statement hmem
  | inr hmem =>
    rw [List.mem_singleton.mp hmem]
    exact hlast

theorem TableChange.isLocal_statements (t : TableChange) :
    ∀ statement ∈ t.statements, statement.IsLocal := by
  intro statement hmem
  unfold statements at hmem
  simp only [List.mem_append, List.mem_map, List.mem_flatMap, or_assoc] at hmem
  rcases hmem with ⟨entry, _, heq⟩ | ⟨entry, _, hmem⟩ | ⟨entry, _, hmem⟩
  . rw [← heq]
    trivial
  . apply Relation.isLocal_dropKey_append hmem
    trivial
  . apply Relation.isLocal_dropKey_append hmem
    trivial

theorem isLocal_foreign (keys : List ForeignKey) :
    ∀ statement ∈ keys.map Statement.foreign, statement.IsLocal := by
  intro statement hmem
  obtain ⟨key, _, heq⟩ := List.mem_map.mp hmem
  rw [← heq]
  trivial

theorem map_column_of_resolve {lookup : Lookup} {relations : List Relation} {keys : List ForeignKey}
    (h : List.Forall₂ (fun r key => r.resolve lookup = .ok key) relations keys) :
    keys.map (·.column) = relations.map (·.foreignKey) := by
  induction h with
  | nil => rfl
  | cons hkey _ ih =>
    obtain ⟨entity, _, heq⟩ := Relation.resolve_eq_ok_iff.mp hkey
    rw [List.map_cons, List.map_cons]
    rw [ih, heq]

namespace ChangeSet

/--
A change set fits a schema if the tables that it creates are not there and the others are, and if
the change of each table fits it.
-/
structure Fits (cs : ChangeSet) (s : Schema) : Prop where
  created : ∀ entry ∈ cs.tables .created, s (entryPlace entry) = none ∧ entry.2.createdNames.Nodup
  updated : ∀ entry ∈ cs.tables .updated, ∃ x, s (entryPlace entry) = some x ∧ entry.2.Fits x
  deleted : ∀ entry ∈ cs.tables .deleted, s (entryPlace entry) ≠ none

structure Performed (cs : ChangeSet) (s s' : Schema) : Prop where
  created : ∀ entry ∈ cs.tables .created, ∃ z, s' (entryPlace entry) = some z ∧
    z.columns = entry.2.createdNames.toFinset ∧ z.keyed = entry.2.addedKeys.toFinset
  updated : ∀ entry ∈ cs.tables .updated, ∃ x z, s (entryPlace entry) = some x ∧
    s' (entryPlace entry) = some z ∧ entry.2.Performed x z
  deleted : ∀ entry ∈ cs.tables .deleted, s' (entryPlace entry) = none
  others : ∀ place, (∀ bucket, ∀ entry ∈ cs.tables bucket, entryPlace entry ≠ place) →
    s' place = s place

variable {cs : ChangeSet} {s : Schema}

theorem places_nodup (h : cs.validate = .ok ()) :
    (cs.keptTables.map entryPlace ++ (cs.tables .deleted).map entryPlace).Nodup := by
  obtain ⟨hnames, _⟩ := validate_eq_ok_iff.mp h
  rw [map_name_allTables] at hnames
  apply List.Nodup.of_map Prod.snd
  unfold keptTables
  simp only [List.map_append, List.map_map]
  exact hnames

theorem keptPlaces_nodup (h : cs.validate = .ok ()) : (cs.keptTables.map entryPlace).Nodup :=
  (places_nodup h).of_append_left

theorem createdPlaces_append_nodup (h : cs.validate = .ok ()) :
    ((cs.tables .created).map entryPlace ++ (cs.tables .updated).map entryPlace).Nodup := by
  rw [← List.map_append]
  exact keptPlaces_nodup h

theorem not_mem_createdPlaces (h : cs.validate = .ok ()) {entry : String × TableChange}
    (hentry : entry ∈ cs.tables .updated) :
    entryPlace entry ∉ (cs.tables .created).map entryPlace := by
  have hdisjoint := List.disjoint_of_nodup_append (createdPlaces_append_nodup h)
  intro hmem
  exact hdisjoint hmem (List.mem_map_of_mem hentry)

theorem not_mem_updatedPlaces (h : cs.validate = .ok ()) {entry : String × TableChange}
    (hentry : entry ∈ cs.tables .created) :
    entryPlace entry ∉ (cs.tables .updated).map entryPlace := by
  have hdisjoint := List.disjoint_of_nodup_append (createdPlaces_append_nodup h)
  intro hmem
  exact hdisjoint (List.mem_map_of_mem hentry) hmem

theorem not_mem_deletedPlaces (h : cs.validate = .ok ()) {entry : String × TableChange}
    (hentry : entry ∈ cs.keptTables) :
    entryPlace entry ∉ (cs.tables .deleted).map entryPlace := by
  have hdisjoint := List.disjoint_of_nodup_append (places_nodup h)
  intro hmem
  exact hdisjoint (List.mem_map_of_mem hentry) hmem

theorem not_mem_keptPlaces (h : cs.validate = .ok ()) {entry : String × TableChange}
    (hentry : entry ∈ cs.tables .deleted) : entryPlace entry ∉ cs.keptTables.map entryPlace := by
  have hdisjoint := List.disjoint_of_nodup_append (places_nodup h)
  intro hmem
  exact hdisjoint hmem (List.mem_map_of_mem hentry)

-- Without columns to update or to delete, a created table is a change of the empty one.
theorem fits_empty_of_created (h : cs.validate = .ok ()) {entry : String × TableChange}
    (hentry : entry ∈ cs.tables .created) (hnodup : entry.2.createdNames.Nodup) :
    entry.2.Fits .empty := by
  obtain ⟨hupdated, hdeleted⟩ := only_created_of_validate h hentry
  apply TableChange.Fits.of_own_keys
  . exact hnodup
  . simp [Table.empty]
  all_goals simp [TableChange.updatedNames, TableChange.deletedNames, databaseNames, hupdated,
    hdeleted, bucketEntries]

theorem performed_empty_of_created (h : cs.validate = .ok ()) {entry : String × TableChange}
    (hentry : entry ∈ cs.tables .created) {z : Table} (hz : entry.2.Performed .empty z) :
    z.columns = entry.2.createdNames.toFinset ∧ z.keyed = entry.2.addedKeys.toFinset := by
  obtain ⟨_, hdeleted⟩ := only_created_of_validate h hentry
  constructor
  . rw [hz.columns]
    simp [Table.empty, TableChange.deletedNames, hdeleted, bucketEntries]
  . rw [hz.keyed]
    simp [Table.empty]

theorem run_creationGroups (h : cs.validate = .ok ()) (hfits : cs.Fits s) :
    ∃ s', s.runGroups cs.creationGroups = some s' ∧
      (∀ entry ∈ cs.tables .created, ∃ y, s' (entryPlace entry) = some y ∧
        entry.2.Altered .empty y) ∧
      ∀ place, place ∉ (cs.tables .created).map entryPlace → s' place = s place := by
  apply Schema.runGroups_eq_some
    (Q := fun (entry : String × TableChange) state =>
      ∃ y, state = some y ∧ entry.2.Altered .empty y)
  . exact (createdPlaces_append_nodup h).of_append_left
  . unfold creationGroups
    rw [List.forall₂_map_right_iff, List.forall₂_same]
    intro entry hentry
    obtain ⟨hnone, hnodup⟩ := hfits.created entry hentry
    obtain ⟨y, hrun, hy⟩ := (fits_empty_of_created h hentry hnodup).run_statements
    refine ⟨some y, ⟨y, rfl, hy⟩, ?_⟩
    intro s' hs'
    exact Schema.runGroup_createTable entry.2.isLocal_statements (hs'.trans hnone) hrun

theorem run_updateGroups (h : cs.validate = .ok ())
    (hfits : ∀ entry ∈ cs.tables .updated, ∃ x, s (entryPlace entry) = some x ∧ entry.2.Fits x) :
    ∃ s', s.runGroups cs.updateGroups = some s' ∧
      (∀ entry ∈ cs.tables .updated, ∃ x y, s (entryPlace entry) = some x ∧ entry.2.Fits x ∧
        s' (entryPlace entry) = some y ∧ entry.2.Altered x y) ∧
      ∀ place, place ∉ (cs.tables .updated).map entryPlace → s' place = s place := by
  apply Schema.runGroups_eq_some
    (Q := fun (entry : String × TableChange) state =>
      ∃ x y, s (entryPlace entry) = some x ∧ entry.2.Fits x ∧
        state = some y ∧ entry.2.Altered x y)
  . exact (createdPlaces_append_nodup h).of_append_right
  . unfold updateGroups
    rw [List.forall₂_map_right_iff, List.forall₂_same]
    intro entry hentry
    obtain ⟨x, hx, hfit⟩ := hfits entry hentry
    obtain ⟨y, hrun, hy⟩ := hfit.run_statements
    refine ⟨some y, ⟨x, y, hx, hfit, rfl, hy⟩, ?_⟩
    intro s' hs'
    exact Schema.runGroup_alterTable entry.2.isLocal_statements (hs'.trans hx) hrun

-- The tables that are created, as if they were there from the start and without columns.
def opened (cs : ChangeSet) (s : Schema) : Schema := fun place =>
  if place ∈ (cs.tables .created).map entryPlace then some .empty else s place

theorem opened_created {entry : String × TableChange} (hentry : entry ∈ cs.tables .created) :
    cs.opened s (entryPlace entry) = some .empty :=
  if_pos (List.mem_map_of_mem hentry)

theorem opened_updated (h : cs.validate = .ok ()) {entry : String × TableChange}
    (hentry : entry ∈ cs.tables .updated) : cs.opened s (entryPlace entry) = s (entryPlace entry) :=
  if_neg (not_mem_createdPlaces h hentry)

theorem run_definingGroups (h : cs.validate = .ok ()) (hfits : cs.Fits s) :
    ∃ s', s.runGroups (cs.creationGroups ++ cs.updateGroups) = some s' ∧
      (∀ entry ∈ cs.keptTables, ∃ x y, cs.opened s (entryPlace entry) = some x ∧ entry.2.Fits x ∧
        s' (entryPlace entry) = some y ∧ entry.2.Altered x y) ∧
      ∀ place, place ∉ cs.keptTables.map entryPlace → s' place = s place := by
  obtain ⟨s₁, hrun₁, hcreated, hkeep₁⟩ := run_creationGroups h hfits
  have hsame : ∀ entry ∈ cs.tables .updated, s₁ (entryPlace entry) = s (entryPlace entry) :=
    fun entry hentry => hkeep₁ _ (not_mem_createdPlaces h hentry)
  have hfits₁ : ∀ entry ∈ cs.tables .updated,
      ∃ x, s₁ (entryPlace entry) = some x ∧ entry.2.Fits x := by
    intro entry hentry
    rw [hsame entry hentry]
    exact hfits.updated entry hentry
  obtain ⟨s₂, hrun₂, hupdated, hkeep₂⟩ := run_updateGroups h hfits₁
  refine ⟨s₂, ?_, ?_, ?_⟩
  . rw [Schema.runGroups_append, hrun₁]
    exact hrun₂
  . intro entry hentry
    cases List.mem_append.mp hentry with
    | inl hentry =>
      obtain ⟨y, hy, haltered⟩ := hcreated entry hentry
      have hfit := fits_empty_of_created h hentry (hfits.created entry hentry).2
      refine ⟨.empty, y, opened_created hentry, hfit, ?_, haltered⟩
      rw [hkeep₂ _ (not_mem_updatedPlaces h hentry)]
      exact hy
    | inr hentry =>
      obtain ⟨x, y, hx, hfit, hy, haltered⟩ := hupdated entry hentry
      refine ⟨x, y, ?_, hfit, hy, haltered⟩
      rw [opened_updated h hentry, ← hsame entry hentry]
      exact hx
  . intro place hplace
    unfold keptTables at hplace
    rw [List.map_append, List.mem_append, not_or] at hplace
    rw [hkeep₂ place hplace.2, hkeep₁ place hplace.1]

theorem mem_relatedTables_iff {entry : String × TableChange} :
    entry ∈ cs.relatedTables ↔ entry ∈ cs.keptTables ∧ entry.2.addedKeys ≠ [] := by
  unfold relatedTables
  rw [List.mem_filter, ← TableChange.relations_map_foreignKey]
  simp

theorem runGroups_comment (s : Schema) (groups : List Group) :
    s.runGroups (if groups.isEmpty then [] else .comment keysComment :: groups) =
      s.runGroups groups := by
  cases groups <;> rfl

theorem run_relationshipGroup {lookup : Lookup} {entry : String × TableChange} {group : Group}
    {x y : Table} (hgroup : entry.2.relationshipGroup lookup entry.1 = .ok group)
    (hfit : entry.2.Fits x) (haltered : entry.2.Altered x y) :
    ∃ z, entry.2.Performed x z ∧
      ∀ s : Schema, s (entryPlace entry) = some y →
        s.runGroup group = some (Function.update s (entryPlace entry) (some z)) := by
  obtain ⟨keys, hkeys, hblock⟩ := TableChange.relationshipGroup_eq_ok_iff.mp hgroup
  have hcolumns := (map_column_of_resolve hkeys).trans entry.2.relations_map_foreignKey
  obtain ⟨z, hz, hperformed⟩ := hfit.run_keys haltered hcolumns
  refine ⟨z, hperformed, ?_⟩
  intro s hs
  rw [hblock]
  exact Schema.runGroup_alterTable (isLocal_foreign keys) hs hz

theorem run_relationshipGroups {lookup : Lookup} {groups : List Group} (h : cs.validate = .ok ())
    (hgroups : cs.relationshipGroups lookup = .ok groups) (start : Schema)
    (hready : ∀ entry ∈ cs.keptTables, ∃ x y, start (entryPlace entry) = some x ∧
      entry.2.Fits x ∧ s (entryPlace entry) = some y ∧ entry.2.Altered x y) :
    ∃ s', s.runGroups groups = some s' ∧
      (∀ entry ∈ cs.keptTables, ∃ x z, start (entryPlace entry) = some x ∧
        s' (entryPlace entry) = some z ∧ entry.2.Performed x z) ∧
      ∀ place, place ∉ cs.keptTables.map entryPlace → s' place = s place := by
  obtain ⟨keyGroups, hkeyGroups, hcomment⟩ := relationshipGroups_eq_ok_iff.mp hgroups
  rw [hcomment, runGroups_comment]
  have hnodup := keptPlaces_nodup h
  have hsublist : (cs.relatedTables.map entryPlace).Sublist (cs.keptTables.map entryPlace) :=
    List.filter_sublist.map _
  have hrelated : ∀ entry ∈ cs.relatedTables, entry ∈ cs.keptTables :=
    fun entry hentry => (mem_relatedTables_iff.mp hentry).1
  obtain ⟨s', hrun, hdone, hkeep⟩ := Schema.runGroups_eq_some
    (Q := fun (entry : String × TableChange) state =>
      ∃ x z, start (entryPlace entry) = some x ∧ state = some z ∧ entry.2.Performed x z)
    s (hnodup.sublist hsublist) <| by
      have hboth := (List.forall₂_and_left _ _).mpr
        ⟨fun entry hentry => hready entry (hrelated entry hentry), hkeyGroups⟩
      apply hboth.imp
      intro entry group hentry
      obtain ⟨⟨x, y, hx, hfit, hy, haltered⟩, hgroup⟩ := hentry
      obtain ⟨z, hperformed, hrun⟩ := run_relationshipGroup hgroup hfit haltered
      exact ⟨some z, ⟨x, z, hx, rfl, hperformed⟩, fun s' hs' => hrun s' (hs'.trans hy)⟩
  refine ⟨s', hrun, ?_, fun place hplace => hkeep place fun hmem => hplace (hsublist.subset hmem)⟩
  intro entry hentry
  by_cases hadded : entry.2.addedKeys = []
  . -- A table without relations is left as it is, and needs no keys.
    obtain ⟨x, y, hx, hfit, hy, haltered⟩ := hready entry hentry
    have hnot : entryPlace entry ∉ cs.relatedTables.map entryPlace := by
      intro hmem
      obtain ⟨other, hother, heq⟩ := List.mem_map.mp hmem
      rw [List.inj_on_of_nodup_map hnodup (hrelated other hother) hentry heq] at hother
      exact (mem_relatedTables_iff.mp hother).2 hadded
    refine ⟨x, y, hx, ?_, hfit.performed_of_addedKeys_eq_nil haltered hadded⟩
    rw [hkeep _ hnot]
    exact hy
  . exact hdone entry (mem_relatedTables_iff.mpr ⟨hentry, hadded⟩)

theorem run_deletionGroups (h : cs.validate = .ok ())
    (hthere : ∀ entry ∈ cs.tables .deleted, s (entryPlace entry) ≠ none) :
    ∃ s', s.runGroups cs.deletionGroups = some s' ∧
      (∀ entry ∈ cs.tables .deleted, s' (entryPlace entry) = none) ∧
      ∀ place, place ∉ (cs.tables .deleted).map entryPlace → s' place = s place := by
  apply Schema.runGroups_eq_some (Q := fun _ state => state = none)
  . exact (places_nodup h).of_append_right
  . unfold deletionGroups
    rw [List.forall₂_map_right_iff, List.forall₂_same]
    intro entry hentry
    refine ⟨none, rfl, ?_⟩
    intro s' hs'
    apply Schema.runGroup_deletionCalls
    show s' (entryPlace entry) ≠ none
    rw [hs']
    exact hthere entry hentry

theorem compileWith_performs {lookup : Lookup} {options : Options} {plan : Plan}
    (h : cs.compileWith lookup options = .ok plan) (hfits : cs.Fits s) :
    ∃ s', s.run plan = some s' ∧ cs.Performed s s' := by
  obtain ⟨hvalid, _⟩ := compileWith_eq_ok_iff.mp h
  obtain ⟨groups, hgroups, hplan⟩ := groups_of_compileWith h
  obtain ⟨s₁, hrun₁, hready, hkeep₁⟩ := run_definingGroups hvalid hfits
  obtain ⟨s₂, hrun₂, hkept, hkeep₂⟩ := run_relationshipGroups hvalid hgroups (cs.opened s) hready
  have hthere : ∀ entry ∈ cs.tables .deleted, s₂ (entryPlace entry) ≠ none := by
    intro entry hentry
    have hnot := not_mem_keptPlaces hvalid hentry
    rw [hkeep₂ _ hnot, hkeep₁ _ hnot]
    exact hfits.deleted entry hentry
  obtain ⟨s₃, hrun₃, hdeleted, hkeep₃⟩ := run_deletionGroups hvalid hthere
  have hfinal : ∀ entry ∈ cs.keptTables, ∃ x z, cs.opened s (entryPlace entry) = some x ∧
      s₃ (entryPlace entry) = some z ∧ entry.2.Performed x z := by
    intro entry hentry
    rw [hkeep₃ _ (not_mem_deletedPlaces hvalid hentry)]
    exact hkept entry hentry
  refine ⟨s₃, ?_, ?_, ?_, hdeleted, ?_⟩
  . unfold Schema.run
    rw [hplan, Schema.runGroups_append, Schema.runGroups_append]
    rw [hrun₁, Option.bind_some, hrun₂, Option.bind_some]
    exact hrun₃
  . intro entry hentry
    obtain ⟨x, z, hx, hz, hperformed⟩ := hfinal entry (List.mem_append_left _ hentry)
    rw [opened_created hentry, Option.some.injEq] at hx
    rw [← hx] at hperformed
    exact ⟨z, hz, performed_empty_of_created hvalid hentry hperformed⟩
  . intro entry hentry
    obtain ⟨x, z, hx, hz, hperformed⟩ := hfinal entry (List.mem_append_right _ hentry)
    rw [opened_updated hvalid hentry] at hx
    exact ⟨x, z, hx, hz, hperformed⟩
  . intro place hplace
    have hnot : ∀ bucket, place ∉ (cs.tables bucket).map entryPlace := by
      intro bucket hmem
      obtain ⟨entry, hentry, heq⟩ := List.mem_map.mp hmem
      exact hplace bucket entry hentry heq
    have hnotKept : place ∉ cs.keptTables.map entryPlace := by
      unfold keptTables
      rw [List.map_append, List.mem_append, not_or]
      exact ⟨hnot .created, hnot .updated⟩
    rw [hkeep₃ place (hnot .deleted), hkeep₂ place hnotKept, hkeep₁ place hnotKept]

end ChangeSet

-- A schema that the changes of the blog fit, with a table besides.
def blogSchema : Schema := fun place =>
  if place = ("blog", "posts") then
    some ⟨{"title", "author_id", "team_id", "draft"}, {"author_id", "team_id"}, by decide⟩
  else if place = ("audit", "logs") ∨ place = ("main", "posts") then
    some .empty
  else
    none

theorem blogChanges_fits : blogChanges.Fits blogSchema where
  created := by
    intro entry hentry
    rw [List.mem_singleton.mp hentry]
    exact ⟨rfl, by decide⟩
  updated := by
    intro entry hentry
    rw [List.mem_singleton.mp hentry]
    refine ⟨_, rfl, ?_⟩
    apply TableChange.Fits.of_own_keys <;>
      simp [bucketEntries, TableChange.createdNames, TableChange.updatedNames,
        TableChange.deletedNames, databaseNames, ColumnDef.databaseName]
  deleted := by
    intro entry hentry
    rw [List.mem_singleton.mp hentry]
    exact Option.some_ne_none Table.empty

theorem blogChanges_performs :
    ∃ plan s', blogChanges.compileWith blogRegistry.lookup {} = .ok plan ∧
      blogChanges.Fits blogSchema ∧ blogSchema.run plan = some s' ∧
      blogChanges.Performed blogSchema s' := by
  obtain ⟨plan, h⟩ := exists_blogPlan
  obtain ⟨s', hrun, hperformed⟩ := ChangeSet.compileWith_performs h blogChanges_fits
  exact ⟨plan, s', h, blogChanges_fits, hrun, hperformed⟩

end SchemaMigration
