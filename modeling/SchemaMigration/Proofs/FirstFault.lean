import SchemaMigration.Proofs.InsertionOrder
import SchemaMigration.Proofs.Validate

/-!
This module contains the rules for change sets as a list, in the order in which they are looked at,
and proves that checking a change set comes to going through them: the change set is accepted iff
all of them hold, and otherwise the error is the one of the first that is broken.
-/

namespace SchemaMigration

def Bucket.rank : Bucket → Nat
  | .created => 0
  | .updated => 1
  | .deleted => 2

inductive Rule where
  | unique (table : String) (bucket : Bucket)
  | connection (table : String) (bucket : Bucket) (connection : String)
  | buckets (table : String) (bucket : Bucket) (t : TableChange)
  | type (table column type : String)
  | relation (table column : String) (relation : Option Relation)

namespace Rule

inductive Broken (cs : ChangeSet) : Rule → Error → Prop where
  | unique {table : String} {first second : Bucket} (horder : first.rank < second.rank)
      (hlisted : table ∈ (cs.tables first).map (·.1)) :
      Broken cs (.unique table second) (.conflictingTable table first second)
  | connection {table : String} {bucket : Bucket} {connection : String}
      (h : Text.isBlank connection = true) :
      Broken cs (.connection table bucket connection) (.malformed (.blankConnection table bucket))
  | created {table : String} {t : TableChange} (h : ¬(t.updated = none ∧ t.deleted = none)) :
      Broken cs (.buckets table .created t) (.malformed (.columnsOfCreatedTable table))
  | deleted {table : String} {t : TableChange}
      (h : ¬(t.created = none ∧ t.updated = none ∧ t.deleted = none)) :
      Broken cs (.buckets table .deleted t) (.malformed (.columnsOfDeletedTable table))
  | type {table column type : String} (h : Text.isBlank type = true) :
      Broken cs (.type table column type) (.malformed (.blankType table column))
  | relation {table column : String} {r : Relation}
      (h : Text.isBlank r.foreignKey = true ∨ Text.isBlank r.model = true) :
      Broken cs (.relation table column (some r)) (.malformed (.incompleteRelation table column))

def Holds (cs : ChangeSet) (rule : Rule) : Prop :=
  ∀ e, ¬rule.Broken cs e

end Rule

namespace TableChange

def rules (table : String) (bucket : Bucket) (t : TableChange) : List Rule :=
  [.connection table bucket t.connection] ++
  ([.buckets table bucket t] ++
  (t.columnDefs.flatMap (fun (column, c) =>
    [.type table column c.type, .relation table column c.belongsTo]) ++
  (bucketEntries t.deleted).map fun (column, c) => .relation table column c.belongsTo))

end TableChange

namespace ChangeSet

def rules (cs : ChangeSet) : List Rule :=
  [Bucket.created, .updated, .deleted].flatMap fun bucket =>
    (cs.tables bucket).flatMap fun (table, t) => .unique table bucket :: t.rules table bucket

/--
What is asked of a change set, without an order.
-/
structure WellFormed (cs : ChangeSet) : Prop where
  unique : ∀ first second table, table ∈ (cs.tables first).map (·.1) →
    table ∈ (cs.tables second).map (·.1) → first = second
  connection : ∀ bucket, ∀ entry ∈ cs.tables bucket,
    ∃ c ∈ entry.2.connection.toList, Text.isWhiteSpace c = false
  created : ∀ entry ∈ cs.tables .created, entry.2.updated = none ∧ entry.2.deleted = none
  deleted : ∀ entry ∈ cs.tables .deleted,
    entry.2.created = none ∧ entry.2.updated = none ∧ entry.2.deleted = none
  defined : ∀ bucket, ∀ entry ∈ cs.tables bucket, ∀ column ∈ entry.2.columnDefs,
    Text.isBlank column.2.type = false ∧ Relation.IsComplete column.2.belongsTo
  dropped : ∀ bucket, ∀ entry ∈ cs.tables bucket, ∀ column ∈ bucketEntries entry.2.deleted,
    Relation.IsComplete column.2.belongsTo

def FirstBroken (cs : ChangeSet) (rules : List Rule) (e : Error) : Prop :=
  ∃ before rule after, rules = before ++ rule :: after ∧
    (∀ r ∈ before, r.Holds cs) ∧ rule.Broken cs e

variable {cs : ChangeSet}

theorem firstBroken_nil {e : Error} : ¬cs.FirstBroken [] e := by
  rintro ⟨before, rule, after, heq, _⟩
  simp at heq

theorem firstBroken_cons {rule : Rule} {rules : List Rule} {e : Error} :
    cs.FirstBroken (rule :: rules) e ↔
      rule.Broken cs e ∨ rule.Holds cs ∧ cs.FirstBroken rules e := by
  unfold FirstBroken
  constructor
  . rintro ⟨before, rule', after, heq, hbefore, hbroken⟩
    cases before with
    | nil =>
      obtain ⟨rfl, rfl⟩ := List.cons_eq_cons.mp heq
      exact .inl hbroken
    | cons r before =>
      obtain ⟨rfl, rfl⟩ := List.cons_eq_cons.mp heq
      obtain ⟨hrule, hbefore⟩ := List.forall_mem_cons.mp hbefore
      exact .inr ⟨hrule, before, rule', after, rfl, hbefore, hbroken⟩
  . rintro (hbroken | ⟨hrule, before, rule', after, rfl, hbefore, hbroken⟩)
    . exact ⟨[], rule, rules, rfl, by simp, hbroken⟩
    . exact ⟨rule :: before, rule', after, rfl, List.forall_mem_cons.mpr ⟨hrule, hbefore⟩, hbroken⟩

theorem firstBroken_append {rules rules' : List Rule} {e : Error} :
    cs.FirstBroken (rules ++ rules') e ↔
      cs.FirstBroken rules e ∨ (∀ r ∈ rules, r.Holds cs) ∧ cs.FirstBroken rules' e := by
  induction rules with
  | nil => simp [firstBroken_nil]
  | cons rule rules ih =>
    rw [List.cons_append, firstBroken_cons, firstBroken_cons, ih, List.forall_mem_cons]
    tauto

structure Reports (cs : ChangeSet) (rules : List Rule) (check : Except Error Unit) : Prop where
  ok : check = .ok () ↔ ∀ r ∈ rules, r.Holds cs
  error : ∀ e, check = .error e ↔ cs.FirstBroken rules e

namespace Reports

theorem nil : cs.Reports [] (.ok ()) where
  ok := by simp
  error := by simp [firstBroken_nil]

theorem single {rule : Rule} {check : Except Error Unit}
    (h : ∀ e, check = .error e ↔ rule.Broken cs e) : cs.Reports [rule] check where
  ok := by
    rw [List.forall_mem_singleton, Rule.Holds]
    simp only [← h]
    cases check <;> simp
  error := by
    intro e
    rw [firstBroken_cons, h]
    simp [firstBroken_nil]

theorem append {rules rules' : List Rule} {check check' : Except Error Unit}
    (h : cs.Reports rules check) (h' : check = .ok () → cs.Reports rules' check') :
    cs.Reports (rules ++ rules') (check >>= fun _ => check') := by
  cases hcheck : check with
  | ok _ =>
    have hrules := h.ok.mp hcheck
    have hrest := h' hcheck
    constructor
    . rw [List.forall_mem_append]
      exact hrest.ok.trans (and_iff_right hrules).symm
    . intro e
      rw [firstBroken_append, ← h.error, hcheck]
      exact (hrest.error e).trans (by simpa using fun _ => hrules)
  | error e' =>
    have hrules : ¬∀ r ∈ rules, r.Holds cs := by
      rw [← h.ok, hcheck]
      simp
    constructor
    . rw [List.forall_mem_append]
      simp [hrules, bind, Except.bind]
    . intro e
      rw [firstBroken_append, ← h.error, hcheck]
      simp [hrules, bind, Except.bind]

theorem guard {rule : Rule} {condition : Prop} [Decidable condition] {e : Error}
    (h : ∀ e', rule.Broken cs e' ↔ condition ∧ e' = e) :
    cs.Reports [rule] (if condition then .error e else .ok ()) := by
  apply single
  intro e'
  rw [h]
  split <;> simp_all [eq_comm]

end Reports

theorem reports_relation (table column : String) (relation : Option Relation) :
    cs.Reports [.relation table column relation] (Relation.check table column relation) := by
  cases relation with
  | none =>
    apply Reports.single
    intro e
    constructor
    . intro h
      contradiction
    . rintro ⟨⟩
  | some r =>
    apply Reports.guard
    intro e
    constructor
    . intro hbroken
      cases hbroken with
      | relation h => simpa using h
    . rintro ⟨h, rfl⟩
      exact .relation (by simpa using h)

theorem reports_checkDefined (table : String) (columns : List (String × ColumnDef)) :
    cs.Reports
      (columns.flatMap fun (column, c) =>
        [.type table column c.type, .relation table column c.belongsTo])
      (TableChange.checkDefined table columns) := by
  induction columns with
  | nil => exact .nil
  | cons entry columns ih =>
    obtain ⟨column, c⟩ := entry
    have htype : cs.Reports [.type table column c.type]
        (if Text.isBlank c.type then .error (.malformed (.blankType table column))
          else .ok ()) := by
      apply Reports.guard
      intro e
      constructor
      . intro hbroken
        cases hbroken with
        | type h => exact ⟨h, rfl⟩
      . rintro ⟨h, rfl⟩
        exact .type h
    have heq : TableChange.checkDefined table ((column, c) :: columns) =
        (if Text.isBlank c.type then .error (.malformed (.blankType table column)) else .ok ()) >>=
          fun _ => Relation.check table column c.belongsTo >>=
          fun _ => TableChange.checkDefined table columns := by
      rw [TableChange.checkDefined]
      cases Text.isBlank c.type <;> rfl
    rw [heq]
    exact htype.append fun _ => (reports_relation table column c.belongsTo).append fun _ => ih

theorem reports_checkDeleted (table : String) (columns : List (String × ColumnDrop)) :
    cs.Reports (columns.map fun (column, c) => .relation table column c.belongsTo)
      (TableChange.checkDeleted table columns) := by
  induction columns with
  | nil => exact .nil
  | cons entry columns ih =>
    exact (reports_relation table entry.1 entry.2.belongsTo).append fun _ => ih

theorem reports_checkBuckets (table : String) (bucket : Bucket) (t : TableChange) :
    cs.Reports [.buckets table bucket t] (t.checkBuckets table bucket) := by
  cases bucket with
  | created =>
    apply Reports.guard
    intro e
    constructor
    . intro hbroken
      cases hbroken with
      | created h =>
        refine ⟨?_, rfl⟩
        cases hupdated : t.updated <;> simp_all [Option.isSome_iff_ne_none]
    . rintro ⟨h, rfl⟩
      apply Rule.Broken.created
      rintro ⟨hupdated, hdeleted⟩
      simp [hupdated, hdeleted] at h
  | updated =>
    apply Reports.single
    intro e
    constructor
    . intro h
      contradiction
    . rintro ⟨⟩
  | deleted =>
    apply Reports.guard
    intro e
    constructor
    . intro hbroken
      cases hbroken with
      | deleted h =>
        refine ⟨?_, rfl⟩
        cases hcreated : t.created <;> cases hupdated : t.updated <;>
          simp_all [TableChange.hasColumns, Option.isSome_iff_ne_none]
    . rintro ⟨h, rfl⟩
      apply Rule.Broken.deleted
      rintro ⟨hcreated, hupdated, hdeleted⟩
      simp [TableChange.hasColumns, hcreated, hupdated, hdeleted] at h

theorem reports_check (table : String) (bucket : Bucket) (t : TableChange) :
    cs.Reports (t.rules table bucket) (t.check table bucket) := by
  have hconnection : cs.Reports [.connection table bucket t.connection]
      (if Text.isBlank t.connection then .error (.malformed (.blankConnection table bucket))
        else .ok ()) := by
    apply Reports.guard
    intro e
    constructor
    . intro hbroken
      cases hbroken with
      | connection h => exact ⟨h, rfl⟩
    . rintro ⟨h, rfl⟩
      exact .connection h
  have heq : t.check table bucket =
      (if Text.isBlank t.connection then .error (.malformed (.blankConnection table bucket))
        else .ok ()) >>=
        fun _ => t.checkBuckets table bucket >>=
        fun _ => TableChange.checkDefined table t.columnDefs >>=
        fun _ => TableChange.checkDeleted table (bucketEntries t.deleted) := by
    unfold TableChange.check
    cases Text.isBlank t.connection <;> rfl
  rw [heq]
  exact hconnection.append fun _ =>
    (reports_checkBuckets table bucket t).append fun _ =>
    (reports_checkDefined table t.columnDefs).append fun _ =>
    reports_checkDeleted table (bucketEntries t.deleted)

def seenOf (before : List (Bucket × String × TableChange)) : List (String × Bucket) :=
  (before.map fun (bucket, table, _) => (table, bucket)).reverse

theorem names_seenOf (before : List (Bucket × String × TableChange)) :
    (seenOf before).map (·.1) = (before.map (·.2.1)).reverse := by
  simp [seenOf, Function.comp_def]

theorem pairwise_allTables (h : ∀ bucket, ((cs.tables bucket).map (·.1)).Nodup) :
    cs.allTables.Pairwise fun entry entry' =>
      entry.1.rank < entry'.1.rank ∨ entry.1 = entry'.1 ∧ entry.2.1 ≠ entry'.2.1 := by
  have hbucket : ∀ bucket, ((cs.tables bucket).map (fun entry => (bucket, entry))).Pairwise
      fun entry entry' =>
        entry.1.rank < entry'.1.rank ∨ entry.1 = entry'.1 ∧ entry.2.1 ≠ entry'.2.1 := by
    intro bucket
    have hnames := h bucket
    rw [List.Nodup, List.pairwise_map] at hnames
    rw [List.pairwise_map]
    exact hnames.imp fun hne => .inr ⟨rfl, hne⟩
  rw [allTables_eq, List.pairwise_append, List.pairwise_append]
  refine ⟨⟨hbucket .created, hbucket .updated, ?_⟩, hbucket .deleted, ?_⟩
  . intro entry hentry entry' hentry'
    obtain ⟨_, _, rfl⟩ := List.mem_map.mp hentry
    obtain ⟨_, _, rfl⟩ := List.mem_map.mp hentry'
    exact .inl Nat.zero_lt_one
  . intro entry hentry entry' hentry'
    obtain ⟨_, _, rfl⟩ := List.mem_map.mp hentry'
    rcases List.mem_append.mp hentry with hentry | hentry <;>
      obtain ⟨_, _, rfl⟩ := List.mem_map.mp hentry
    . exact .inl Nat.zero_lt_two
    . exact .inl Nat.one_lt_two

-- A name has been seen with a bucket iff an earlier bucket lists it.
theorem lookup_seenOf_iff (h : ∀ bucket, ((cs.tables bucket).map (·.1)).Nodup)
    {before tables : List (Bucket × String × TableChange)} {bucket first : Bucket}
    {table : String} {t : TableChange}
    (hall : cs.allTables = before ++ (bucket, table, t) :: tables)
    (hnew : (before.map (·.2.1)).Nodup) :
    (seenOf before).lookup table = some first ↔
      first.rank < bucket.rank ∧ table ∈ (cs.tables first).map (·.1) := by
  have hpairwise := pairwise_allTables h
  rw [hall, List.pairwise_append, List.pairwise_cons] at hpairwise
  obtain ⟨_, ⟨hafter, _⟩, hbefore⟩ := hpairwise
  constructor
  . intro hlookup
    obtain ⟨l, l', heq, _⟩ := List.lookup_eq_some_iff.mp hlookup
    have hmem : (table, first) ∈ seenOf before := by simp [heq]
    obtain ⟨⟨_, _, t'⟩, hentry, heq⟩ := List.mem_map.mp (List.mem_reverse.mp hmem)
    cases heq
    constructor
    . rcases hbefore _ hentry _ (List.mem_cons_self ..) with hrank | ⟨_, hne⟩
      . exact hrank
      . exact absurd rfl hne
    . have htables : (table, t') ∈ cs.tables first := by
        rw [← mem_allTables_iff, hall]
        exact List.mem_append_left _ hentry
      exact List.mem_map_of_mem htables
  . rintro ⟨hrank, hlisted⟩
    obtain ⟨⟨table', t'⟩, hentry, hname⟩ := List.mem_map.mp hlisted
    have hname : table' = table := hname
    rw [hname] at hentry
    have hmem := mem_allTables_iff.mpr hentry
    rw [hall, List.mem_append, List.mem_cons] at hmem
    have hseen : (table, first) ∈ seenOf before := by
      rcases hmem with hmem | heq | hmem
      . exact List.mem_reverse.mpr (List.mem_map_of_mem hmem)
      . cases heq
        exact absurd hrank (Nat.lt_irrefl _)
      . rcases hafter _ hmem with hlt | ⟨heq, _⟩
        . exact absurd hrank (Nat.lt_asymm hlt)
        . cases heq
          exact absurd hrank (Nat.lt_irrefl _)
    have hnodup : ((seenOf before).map (·.1)).Nodup := by
      rwa [names_seenOf, List.nodup_reverse]
    exact NameMap.lookup_of_mem hnodup hseen

def checkUnique (table : String) (bucket : Bucket) : Option Bucket → Except Error Unit
  | some first => .error (.conflictingTable table first bucket)
  | none => .ok ()

theorem checkTables_cons (seen : List (String × Bucket)) (bucket : Bucket) (table : String)
    (t : TableChange) (tables : List (Bucket × String × TableChange)) :
    checkTables seen ((bucket, table, t) :: tables) =
      checkUnique table bucket (seen.lookup table) >>= fun _ =>
        t.check table bucket >>= fun _ => checkTables ((table, bucket) :: seen) tables := by
  rw [checkTables]
  cases seen.lookup table <;> rfl

theorem reports_checkUnique (h : ∀ bucket, ((cs.tables bucket).map (·.1)).Nodup)
    {before tables : List (Bucket × String × TableChange)} {bucket : Bucket} {table : String}
    {t : TableChange} (hall : cs.allTables = before ++ (bucket, table, t) :: tables)
    (hnew : (before.map (·.2.1)).Nodup) :
    cs.Reports [.unique table bucket]
      (checkUnique table bucket ((seenOf before).lookup table)) := by
  apply Reports.single
  intro e
  constructor
  . cases hlookup : (seenOf before).lookup table with
    | some first =>
      intro heq
      cases heq
      obtain ⟨horder, hlisted⟩ := (lookup_seenOf_iff h hall hnew).mp hlookup
      exact .unique horder hlisted
    | none =>
      intro heq
      contradiction
  . rintro ⟨horder, hlisted⟩
    rw [(lookup_seenOf_iff h hall hnew).mpr ⟨horder, hlisted⟩]
    rfl

theorem reports_checkTables (h : ∀ bucket, ((cs.tables bucket).map (·.1)).Nodup)
    {before tables : List (Bucket × String × TableChange)}
    (hall : cs.allTables = before ++ tables) (hnew : (before.map (·.2.1)).Nodup) :
    cs.Reports
      (tables.flatMap fun (bucket, table, t) => .unique table bucket :: t.rules table bucket)
      (checkTables (seenOf before) tables) := by
  induction tables generalizing before with
  | nil => exact .nil
  | cons entry tables ih =>
    obtain ⟨bucket, table, t⟩ := entry
    have htable := (reports_checkUnique h hall hnew).append fun hok =>
      (reports_check table bucket t).append fun _ => by
        have hlookup : (seenOf before).lookup table = none := by
          cases hlookup : (seenOf before).lookup table with
          | none => rfl
          | some first => simp [checkUnique, hlookup] at hok
        have hnew' : ((before ++ [(bucket, table, t)]).map (·.2.1)).Nodup := by
          rw [lookup_eq_none_iff, names_seenOf, List.mem_reverse] at hlookup
          rw [List.map_append, List.nodup_append]
          grind
        exact ih (by rw [hall, List.append_assoc, List.singleton_append]) hnew'
    have hseen : seenOf (before ++ [(bucket, table, t)]) = (table, bucket) :: seenOf before := by
      simp [seenOf]
    rw [checkTables_cons, ← hseen]
    exact htable

theorem rules_eq (cs : ChangeSet) :
    cs.rules =
      cs.allTables.flatMap fun (bucket, table, t) =>
        .unique table bucket :: t.rules table bucket := by
  rw [allTables_eq]
  simp [rules, List.flatMap_map]

theorem nodup_allTables_iff (h : ∀ bucket, ((cs.tables bucket).map (·.1)).Nodup) :
    (cs.allTables.map (·.2.1)).Nodup ↔
      ∀ first second table, table ∈ (cs.tables first).map (·.1) →
        table ∈ (cs.tables second).map (·.1) → first = second := by
  rw [map_name_allTables, List.nodup_append, List.nodup_append]
  constructor
  . rintro ⟨⟨_, _, hupdated⟩, _, hdeleted⟩ first second table hfirst hsecond
    have hcreated' := fun hmem => hdeleted table (List.mem_append_left _ hmem) table
    have hupdated' := fun hmem => hdeleted table (List.mem_append_right _ hmem) table
    specialize hupdated table
    cases first <;> cases second <;> grind
  . intro hunique
    refine ⟨⟨h .created, h .updated, ?_⟩, h .deleted, ?_⟩
    . rintro table hcreated _ hupdated rfl
      exact Bucket.noConfusion (hunique _ _ table hcreated hupdated)
    . rintro table hkept _ hdeleted rfl
      rcases List.mem_append.mp hkept with hcreated | hupdated
      . exact Bucket.noConfusion (hunique _ _ table hcreated hdeleted)
      . exact Bucket.noConfusion (hunique _ _ table hupdated hdeleted)

theorem validate_eq_ok_iff_wellFormed (h : ∀ bucket, ((cs.tables bucket).map (·.1)).Nodup) :
    cs.validate = .ok () ↔ cs.WellFormed := by
  rw [validate_eq_ok_iff, nodup_allTables_iff h]
  simp only [TableChange.check_eq_ok_iff, TableChange.checkDefined_eq_ok_iff,
    TableChange.checkDeleted_eq_ok_iff, Text.isBlank_eq_false_iff (s := TableChange.connection _)]
  constructor
  . rintro ⟨hunique, hcheck⟩
    refine ⟨hunique, ?_, ?_, ?_, ?_, ?_⟩
    . intro bucket entry hentry
      exact (hcheck bucket entry hentry).1
    . intro entry hentry
      exact TableChange.checkBuckets_created_eq_ok_iff.mp (hcheck .created entry hentry).2.1
    . intro entry hentry
      exact TableChange.checkBuckets_deleted_eq_ok_iff.mp (hcheck .deleted entry hentry).2.1
    . intro bucket entry hentry
      exact (hcheck bucket entry hentry).2.2.1
    . intro bucket entry hentry
      exact (hcheck bucket entry hentry).2.2.2
  . intro hcs
    refine ⟨hcs.unique, ?_⟩
    intro bucket entry hentry
    refine ⟨hcs.connection bucket entry hentry, ?_, hcs.defined bucket entry hentry,
      hcs.dropped bucket entry hentry⟩
    cases bucket with
    | created => exact TableChange.checkBuckets_created_eq_ok_iff.mpr (hcs.created entry hentry)
    | updated => rfl
    | deleted => exact TableChange.checkBuckets_deleted_eq_ok_iff.mpr (hcs.deleted entry hentry)

theorem validate_reports (h : ∀ bucket, ((cs.tables bucket).map (·.1)).Nodup) :
    (cs.validate = .ok () ↔ cs.WellFormed) ∧
    ∀ e, cs.validate = .error e ↔ cs.FirstBroken cs.rules e := by
  have hreports := reports_checkTables h (List.nil_append _).symm List.nodup_nil
  rw [← rules_eq] at hreports
  exact ⟨validate_eq_ok_iff_wellFormed h, hreports.error⟩

end ChangeSet

def clashingChanges : ChangeSet where
  created := some ⟨[("posts", { connection := "main" })]⟩
  updated := some ⟨[("posts", { connection := " " })]⟩
  deleted := some ⟨[("tags", { connection := "main", deleted := some .empty })]⟩

theorem clashingChanges_reports :
    (∀ bucket, ((clashingChanges.tables bucket).map (·.1)).Nodup) ∧
    ¬clashingChanges.WellFormed ∧
    clashingChanges.FirstBroken clashingChanges.rules
      (.conflictingTable "posts" .created .updated) := by
  have hnames : ∀ bucket, ((clashingChanges.tables bucket).map (·.1)).Nodup := by
    intro bucket
    cases bucket <;> decide
  obtain ⟨hok, herror⟩ := ChangeSet.validate_reports hnames
  have hvalidate : clashingChanges.validate =
      .error (.conflictingTable "posts" .created .updated) := by decide
  refine ⟨hnames, ?_, (herror _).mp hvalidate⟩
  rw [← hok, hvalidate]
  intro h
  contradiction

end SchemaMigration
