import SchemaMigration.Proofs.Accounting
import SchemaMigration.Proofs.Outcome

/-!
This module contains the restriction of change sets to some of their tables. Tables are compiled
independently of each other: the plan of a restriction has just the groups for its tables, and a
change set compiles if it consists of parts that do.
-/

namespace SchemaMigration

def NameMap.restrict {α : Type} (keep : String → Bool) (map : NameMap α) : NameMap α :=
  ⟨map.entries.filter fun entry => keep entry.1⟩

theorem bucketEntries_restrict {α : Type} (keep : String → Bool) (bucket : Option (NameMap α)) :
    bucketEntries (bucket.map (·.restrict keep)) =
      (bucketEntries bucket).filter fun entry => keep entry.1 := by
  cases bucket <;> rfl

def Group.concerns (keep : String → Bool) (group : Group) : Bool :=
  group.table?.any keep

namespace ChangeSet

def restrict (keep : String → Bool) (cs : ChangeSet) : ChangeSet where
  created := cs.created.map (·.restrict keep)
  updated := cs.updated.map (·.restrict keep)
  deleted := cs.deleted.map (·.restrict keep)

variable {cs : ChangeSet} {keep keep' : String → Bool} {lookup : Lookup} {options : Options}

theorem tables_restrict (keep : String → Bool) (cs : ChangeSet) (bucket : Bucket) :
    (cs.restrict keep).tables bucket = (cs.tables bucket).filter fun entry => keep entry.1 := by
  cases bucket <;> apply bucketEntries_restrict

theorem keptTables_restrict (keep : String → Bool) (cs : ChangeSet) :
    (cs.restrict keep).keptTables = cs.keptTables.filter fun entry => keep entry.1 := by
  unfold keptTables
  rw [tables_restrict, tables_restrict, List.filter_append]

theorem relatedTables_restrict (keep : String → Bool) (cs : ChangeSet) :
    (cs.restrict keep).relatedTables = cs.relatedTables.filter fun entry => keep entry.1 := by
  unfold relatedTables
  rw [keptTables_restrict]
  apply List.filter_comm

theorem names_restrict (keep : String → Bool) (cs : ChangeSet) :
    (cs.restrict keep).allTables.map (·.2.1) = (cs.allTables.map (·.2.1)).filter keep := by
  simp only [map_name_allTables, tables_restrict, List.filter_append, List.filter_map]
  rfl

theorem mem_definedColumns_iff {c : DefinedColumn} :
    c ∈ cs.definedColumns ↔ ∃ entry ∈ cs.keptTables, ∃ column ∈ entry.2.columnDefs,
      c = ⟨entry.1, column.1, column.2⟩ := by
  unfold definedColumns
  simp only [List.mem_flatMap, List.mem_map, @eq_comm _ c]

theorem exists_relationshipGroups_iff :
    (∃ groups, cs.relationshipGroups lookup = .ok groups) ↔
      ∀ entry ∈ cs.keptTables, ∀ r ∈ entry.2.relations, ∃ entity, lookup r.model = .ok entity := by
  rw [← fault?_eq_none_iff, fault?_relationshipGroups]
  simp only [List.findSome?_eq_none_iff, List.mem_flatMap, fault?_eq_none_iff]
  constructor
  . intro h entry hentry r hr
    exact h r ⟨entry, hentry, hr⟩
  . intro h r hr
    obtain ⟨entry, hentry, hr⟩ := hr
    exact h entry hentry r hr

theorem exists_compileWith_iff :
    (∃ plan, cs.compileWith lookup options = .ok plan) ↔
      cs.validate = .ok () ∧ cs.DefaultsAllowed options ∧
      ∀ entry ∈ cs.keptTables, ∀ r ∈ entry.2.relations, ∃ entity, lookup r.model = .ok entity := by
  rw [← exists_relationshipGroups_iff]
  simp only [← fault?_eq_none_iff]
  rw [fault?_compileWith, Option.or_eq_none_iff, Option.or_eq_none_iff]
  rw [fault?_check_eq_none_iff, fault?_checkDefaults_eq_none_iff]

theorem validate_restrict (h : cs.validate = .ok ()) : (cs.restrict keep).validate = .ok () := by
  obtain ⟨hnames, hcheck⟩ := validate_eq_ok_iff.mp h
  rw [validate_eq_ok_iff]
  constructor
  . rw [names_restrict]
    exact hnames.filter keep
  . intro bucket entry hentry
    rw [tables_restrict] at hentry
    exact hcheck bucket entry (List.mem_of_mem_filter hentry)

theorem defaultsAllowed_restrict (h : cs.DefaultsAllowed options) :
    (cs.restrict keep).DefaultsAllowed options := by
  cases h with
  | inl hallow => exact .inl hallow
  | inr hnone =>
    right
    intro c hc
    rw [mem_definedColumns_iff, keptTables_restrict] at hc
    obtain ⟨entry, hentry, hcolumn⟩ := hc
    apply hnone
    rw [mem_definedColumns_iff]
    exact ⟨entry, List.mem_of_mem_filter hentry, hcolumn⟩

theorem exists_compileWith_restrict (keep : String → Bool)
    (h : ∃ plan, cs.compileWith lookup options = .ok plan) :
    ∃ plan, (cs.restrict keep).compileWith lookup options = .ok plan := by
  rw [exists_compileWith_iff] at h ⊢
  obtain ⟨hvalid, hdefaults, hmodels⟩ := h
  refine ⟨validate_restrict hvalid, defaultsAllowed_restrict hdefaults, ?_⟩
  intro entry hentry
  rw [keptTables_restrict] at hentry
  exact hmodels entry (List.mem_of_mem_filter hentry)

def CoveredBy (cs : ChangeSet) (keep keep' : String → Bool) : Prop :=
  ∀ bucket, ∀ entry ∈ cs.tables bucket, keep entry.1 = true ∨ keep' entry.1 = true

theorem CoveredBy.mem_tables (hcover : cs.CoveredBy keep keep') {bucket : Bucket}
    {entry : String × TableChange} (hentry : entry ∈ cs.tables bucket) :
    entry ∈ (cs.restrict keep).tables bucket ∨ entry ∈ (cs.restrict keep').tables bucket := by
  rw [tables_restrict, tables_restrict, List.mem_filter, List.mem_filter]
  cases hcover bucket entry hentry with
  | inl hkeep => exact .inl ⟨hentry, hkeep⟩
  | inr hkeep => exact .inr ⟨hentry, hkeep⟩

theorem CoveredBy.mem_keptTables (hcover : cs.CoveredBy keep keep') {entry : String × TableChange}
    (hentry : entry ∈ cs.keptTables) :
    entry ∈ (cs.restrict keep).keptTables ∨ entry ∈ (cs.restrict keep').keptTables := by
  simp only [keptTables, List.mem_append] at hentry ⊢
  cases hentry with
  | inl hentry => exact (hcover.mem_tables hentry).imp .inl .inl
  | inr hentry => exact (hcover.mem_tables hentry).imp .inr .inr

theorem exists_compileWith_of_parts (hnames : (cs.allTables.map (·.2.1)).Nodup)
    (hcover : cs.CoveredBy keep keep')
    (h : ∃ plan, (cs.restrict keep).compileWith lookup options = .ok plan)
    (h' : ∃ plan, (cs.restrict keep').compileWith lookup options = .ok plan) :
    ∃ plan, cs.compileWith lookup options = .ok plan := by
  rw [exists_compileWith_iff] at h h' ⊢
  obtain ⟨hvalid, hdefaults, hmodels⟩ := h
  obtain ⟨hvalid', hdefaults', hmodels'⟩ := h'
  refine ⟨?_, ?_, ?_⟩
  . rw [validate_eq_ok_iff] at hvalid hvalid' ⊢
    refine ⟨hnames, ?_⟩
    intro bucket entry hentry
    cases hcover.mem_tables hentry with
    | inl hentry => exact hvalid.2 bucket entry hentry
    | inr hentry => exact hvalid'.2 bucket entry hentry
  . cases hdefaults with
    | inl hallow => exact .inl hallow
    | inr hnone =>
      cases hdefaults' with
      | inl hallow => exact .inl hallow
      | inr hnone' =>
        right
        intro c hc
        obtain ⟨entry, hentry, hcolumn⟩ := mem_definedColumns_iff.mp hc
        cases hcover.mem_keptTables hentry with
        | inl hentry => exact hnone c (mem_definedColumns_iff.mpr ⟨entry, hentry, hcolumn⟩)
        | inr hentry => exact hnone' c (mem_definedColumns_iff.mpr ⟨entry, hentry, hcolumn⟩)
  . intro entry hentry
    cases hcover.mem_keptTables hentry with
    | inl hentry => exact hmodels entry hentry
    | inr hentry => exact hmodels' entry hentry

-- Where every table has a group of its own, this holds whatever the groups are.
theorem filter_tableGroups {group : String × TableChange → Group}
    (hgroup : ∀ entry, (group entry).table? = some entry.1) (keep : String → Bool)
    (entries : List (String × TableChange)) :
    (entries.map group).filter (·.concerns keep) =
      ((entries.filter fun entry => keep entry.1).map group).filter (·.table?.isSome) := by
  have hkept : (Group.concerns keep ∘ group) = fun entry => keep entry.1 := by
    funext entry
    simp [Group.concerns, hgroup]
  have hall : ((fun g : Group => g.table?.isSome) ∘ group) = fun _ => true := by
    funext entry
    simp [hgroup]
  rw [List.filter_map, List.filter_map, hkept, hall, List.filter_true]

theorem table?_of_relationshipGroup {t : TableChange} {name : String} {group : Group}
    (h : t.relationshipGroup lookup name = .ok group) : group.table? = some name := by
  obtain ⟨keys, _, rfl⟩ := TableChange.relationshipGroup_eq_ok_iff.mp h
  rfl

theorem filter_keysComment {p : Group → Bool} (hcomment : p (.comment keysComment) = false)
    (groups : List Group) :
    (if groups.isEmpty then [] else .comment keysComment :: groups).filter p =
      groups.filter p := by
  cases groups with
  | nil => rfl
  | cons group groups =>
    show List.filter p (.comment keysComment :: group :: groups) = _
    rw [List.filter_cons_of_neg (by simp [hcomment])]

theorem filter_relationshipGroups {groups groups' : List Group}
    (h : cs.relationshipGroups lookup = .ok groups)
    (h' : (cs.restrict keep).relationshipGroups lookup = .ok groups') :
    groups.filter (·.concerns keep) = groups'.filter (·.table?.isSome) := by
  obtain ⟨keyGroups, hkeyGroups, rfl⟩ := relationshipGroups_eq_ok_iff.mp h
  obtain ⟨keyGroups', hkeyGroups', rfl⟩ := relationshipGroups_eq_ok_iff.mp h'
  rw [filter_keysComment rfl, filter_keysComment rfl]
  have hall : keyGroups'.filter (·.table?.isSome) = keyGroups' := by
    rw [List.filter_eq_self]
    intro group hgroup
    obtain ⟨entry, _, hentry⟩ := exists_of_forall₂_of_mem hkeyGroups' hgroup
    rw [table?_of_relationshipGroup hentry]
    rfl
  have hkept : List.Forall₂
      (fun entry group => entry.2.relationshipGroup lookup entry.1 = .ok group)
      (cs.restrict keep).relatedTables (keyGroups.filter (·.concerns keep)) := by
    rw [relatedTables_restrict]
    apply List.rel_filter _ hkeyGroups
    intro entry group hgroup
    dsimp only [Group.concerns]
    rw [table?_of_relationshipGroup hgroup]
    rfl
  -- The groups for the tables of the restriction are made in one way only.
  rw [← mapM_eq_ok_iff] at hkept hkeyGroups'
  rw [hkept, Except.ok.injEq] at hkeyGroups'
  rw [hall, hkeyGroups']

theorem filter_groupsOf {plan plan' : Plan} (h : cs.compileWith lookup options = .ok plan)
    (h' : (cs.restrict keep).compileWith lookup options = .ok plan') (kind : PassKind) :
    (plan.groupsOf kind).filter (·.concerns keep) =
      (plan'.groupsOf kind).filter (·.table?.isSome) := by
  obtain ⟨_, _, groups, hgroups, rfl⟩ := compileWith_eq_ok_iff.mp h
  obtain ⟨_, _, groups', hgroups', rfl⟩ := compileWith_eq_ok_iff.mp h'
  rw [groupsOf_filter_passes, groupsOf_filter_passes]
  cases kind with
  | createdTables =>
    simp only [passes, creationGroups, tables_restrict]
    simpa using filter_tableGroups (fun _ => rfl) keep (cs.tables .created)
  | updatedTables =>
    simp only [passes, updateGroups, tables_restrict]
    simpa using filter_tableGroups (fun _ => rfl) keep (cs.tables .updated)
  | relationships => simpa [passes] using filter_relationshipGroups hgroups hgroups'
  | deletedTables =>
    simp only [passes, deletionGroups, tables_restrict]
    simpa using filter_tableGroups (fun _ => rfl) keep (cs.tables .deleted)

/--
A change set that compiles does so for any of its tables alone, and the plan for these tables has in
each pass just their groups. A change set whose tables have distinct names compiles if it consists
of two parts that do.
-/
theorem compileWith_restrict (lookup : Lookup) (options : Options) (cs : ChangeSet) :
    (∀ plan keep, cs.compileWith lookup options = .ok plan →
      ∃ plan', (cs.restrict keep).compileWith lookup options = .ok plan' ∧
        ∀ kind, (plan.groupsOf kind).filter (·.concerns keep) =
          (plan'.groupsOf kind).filter (·.table?.isSome)) ∧
    ∀ keep keep', (cs.allTables.map (·.2.1)).Nodup → cs.CoveredBy keep keep' →
      (∃ plan, (cs.restrict keep).compileWith lookup options = .ok plan) →
      (∃ plan, (cs.restrict keep').compileWith lookup options = .ok plan) →
      ∃ plan, cs.compileWith lookup options = .ok plan := by
  constructor
  . intro plan keep h
    obtain ⟨plan', h'⟩ := exists_compileWith_restrict keep ⟨plan, h⟩
    exact ⟨plan', h', filter_groupsOf h h'⟩
  . intro keep keep' hnames hcover h h'
    exact exists_compileWith_of_parts hnames hcover h h'

end ChangeSet

-- The posts have keys of their own, and so have the tables besides them.
theorem blogChanges_restrict :
    (∃ plan plan', blogChanges.compileWith blogRegistry.lookup {} = .ok plan ∧
      (blogChanges.restrict (· == "posts")).compileWith blogRegistry.lookup {} = .ok plan' ∧
      (plan.groupsOf .relationships).filter (·.concerns (· == "posts")) =
        (plan'.groupsOf .relationships).filter (·.table?.isSome)) ∧
    (blogChanges.allTables.map (·.2.1)).Nodup ∧
    blogChanges.CoveredBy (· == "posts") (· != "posts") ∧
    (∃ plan, (blogChanges.restrict (· == "posts")).compileWith blogRegistry.lookup {} = .ok plan) ∧
    (∃ plan, (blogChanges.restrict (· != "posts")).compileWith blogRegistry.lookup {} = .ok plan) ∧
    ∃ plan, blogChanges.compileWith blogRegistry.lookup {} = .ok plan := by
  obtain ⟨parts, whole⟩ := ChangeSet.compileWith_restrict blogRegistry.lookup {} blogChanges
  obtain ⟨plan, hplan⟩ := exists_blogPlan
  obtain ⟨plan', hplan', hgroups⟩ := parts plan (· == "posts") hplan
  obtain ⟨plan'', hplan'', _⟩ := parts plan (· != "posts") hplan
  have hnames : (blogChanges.allTables.map (·.2.1)).Nodup := by decide
  have hcover : blogChanges.CoveredBy (· == "posts") (· != "posts") := by
    intro bucket entry _
    cases hname : entry.1 == "posts" with
    | true => exact .inl hname
    | false => exact .inr (by simp [bne, hname])
  exact ⟨⟨plan, plan', hplan, hplan', hgroups .relationships⟩, hnames, hcover, ⟨plan', hplan'⟩,
    ⟨plan'', hplan''⟩, whole _ _ hnames hcover ⟨plan', hplan'⟩ ⟨plan'', hplan''⟩⟩

end SchemaMigration
