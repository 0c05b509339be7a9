import SchemaMigration.Proofs.ChangeSetSpelling
import SchemaMigration.Proofs.Compile

/-!
This module contains the round trip of change sets. What is written for a change set is one of its
spellings, so it is read as itself. Of every part it is proved that whatever is read is such that
this holds of it, so the text of a change set that comes from a document is another document for it.
-/

namespace SchemaMigration

open Json

theorem ChangeSet.readsBack {cs : ChangeSet} (hregular : cs.Regular)
    (hfree : ∀ v ∈ cs.values, v.FloatFree) : ReadsBack record.read cs.toJson cs := by
  constructor
  intro style level depth hstyle hheight
  exact (text_write hfree hstyle hheight).finds hregular

theorem forall_mem_optionalMember {key : String} {value : α → Json} {part : Option α}
    {P : String × Json → Prop} :
    (∀ m ∈ optionalMember key value part, P m) ↔ ∀ a ∈ part, P (key, value a) := by
  cases part <;> simp [optionalMember]

theorem Relation.record_yields : record.read.Yields fun depth (_ : Relation) => 0 < depth := by
  have hfields : ∀ field ∈ record.fields, field.Keeps fun _ _ => True := by
    intro field _
    constructor
    simp
  apply (Record.yields (by simp) hfields).mono
  intro depth r h
  obtain ⟨inner, hdepth, _⟩ := h
  omega

theorem Relation.height_toJson (r : Relation) : r.toJson.height = 1 := rfl

namespace ColumnDef

structure ReadAt (depth : Nat) (c : ColumnDef) : Prop where
  typeArgs : ∀ v ∈ c.typeArgs, v.Regular ∧ v.height < depth
  options : ∀ o ∈ c.options, ∀ v ∈ o, v.Regular ∧ v.height ≤ depth ∧ v ≠ .null
  belongsTo : ∀ r ∈ c.belongsTo, 0 < depth

theorem ReadAt.regular {depth : Nat} {c : ColumnDef} (h : c.ReadAt depth) : c.Regular where
  values := by
    intro v hv
    unfold ColumnDef.values at hv
    rw [List.mem_append, List.mem_filterMap] at hv
    cases hv with
    | inl hv => exact (h.typeArgs v hv).1
    | inr hv =>
      obtain ⟨o, ho, hv⟩ := hv
      exact (h.options o ho v hv).1
  options := by
    intro o ho hnull
    exact (h.options o ho .null hnull).2.2 rfl

theorem ReadAt.height {depth : Nat} {c : ColumnDef} (h : c.ReadAt depth) :
    c.toJson.height ≤ depth + 1 := by
  have hargs : c.typeArgs.isEmpty = false → (Json.array c.typeArgs).height ≤ depth := by
    intro hne
    cases depth with
    | zero =>
      cases hcases : c.typeArgs with
      | nil => simp [hcases] at hne
      | cons v vs =>
        have := h.typeArgs v (by simp [hcases])
        omega
    | succ depth =>
      rw [height_array_le]
      intro v hv
      have := h.typeArgs v hv
      omega
  have hoptions : ∀ o ∈ c.options, ∀ v ∈ o, (id v).height ≤ depth := by
    intro o ho v hv
    exact (h.options o ho v hv).2.1
  simp only [ColumnDef.options, List.forall_mem_cons, List.not_mem_nil, false_imp_iff,
    implies_true, and_true] at hoptions
  obtain ⟨hindex, hunique, hdefault, hprimary, hunsigned, hnullable, hcurrent⟩ := hoptions
  unfold toJson
  rw [height_object_le]
  simp only [List.forall_mem_append, forall_mem_optionalMember]
  refine ⟨⟨⟨⟨⟨⟨⟨⟨⟨⟨?_, ?_⟩, hindex⟩, hunique⟩, hdefault⟩, ?_⟩, hprimary⟩, hunsigned⟩, hnullable⟩,
    hcurrent⟩, ?_⟩
  . simp
  . split
    . simp
    . next hne => simpa using hargs (by simpa using hne)
  . simp
  . intro r hr
    rw [Relation.height_toJson]
    exact h.belongsTo r hr

theorem ReadAt.of_options {depth : Nat} {c c' : ColumnDef} (h : c.ReadAt depth)
    (htypeArgs : c'.typeArgs = c.typeArgs) (hbelongsTo : c'.belongsTo = c.belongsTo)
    (hoptions : ∀ o ∈ c'.options, o ∈ c.options ∨
      ∀ v ∈ o, v.Regular ∧ v.height ≤ depth ∧ v ≠ .null) : c'.ReadAt depth where
  typeArgs := by
    rw [htypeArgs]
    exact h.typeArgs
  options := by
    intro o ho
    cases hoptions o ho with
    | inl ho => exact h.options o ho
    | inr hv => exact hv
  belongsTo := by
    rw [hbelongsTo]
    exact h.belongsTo

theorem keeps_option {key : String} {set : Option Json → ColumnDef → ColumnDef}
    (htypeArgs : ∀ v c, (set v c).typeArgs = c.typeArgs)
    (hbelongsTo : ∀ v c, (set v c).belongsTo = c.belongsTo)
    (hoptions : ∀ v c, ∀ o ∈ (set v c).options, o ∈ c.options ∨ o = v) :
    (Field.defaulted key (Reader.optional Reader.value) set).Keeps ReadAt := by
  apply Field.keeps_defaulted Reader.optional_value_yields
  intro depth v c hv hc
  apply hc.of_options (htypeArgs v c) (hbelongsTo v c)
  intro o ho
  cases hoptions v c o ho with
  | inl ho => exact .inl ho
  | inr ho =>
    rw [ho]
    exact .inr hv

theorem record_keeps : ∀ field ∈ record.fields, field.Keeps ReadAt := by
  simp only [record, List.forall_mem_cons]
  refine ⟨?_, ?_, ?_, ?_, ?_, ?_, ?_, ?_, ?_, ?_, ?_, by simp⟩
  . apply Field.keeps_mandatory Reader.string_yields
    intro depth s c _ hc
    exact ⟨hc.typeArgs, hc.options, hc.belongsTo⟩
  . apply Field.keeps_defaulted Reader.value_yields.list.optional
    intro depth args c hargs hc
    refine ⟨?_, hc.options, hc.belongsTo⟩
    intro v hv
    cases args with
    | none => simp at hv
    | some args =>
      obtain ⟨inner, hdepth, hall⟩ := hargs args rfl
      obtain ⟨hregular, hheight⟩ := hall v hv
      exact ⟨hregular, by omega⟩
  case refine_6 =>
    apply Field.keeps_defaulted Reader.string_yields.optional
    intro depth s c _ hc
    exact ⟨hc.typeArgs, hc.options, hc.belongsTo⟩
  case refine_11 =>
    apply Field.keeps_defaulted Relation.record_yields.optional
    intro depth r c hr hc
    exact ⟨hc.typeArgs, hc.options, hr⟩
  all_goals
    apply keeps_option
    . simp
    . simp
    . intro v c
      simp [options]

theorem record_yields :
    record.read.Yields fun depth c => c.Regular ∧ c.toJson.height ≤ depth := by
  have hblank : ∀ depth, ReadAt depth record.blank := by
    intro depth
    constructor <;> simp [record, options]
  apply (Record.yields hblank record_keeps).mono
  intro depth c h
  obtain ⟨inner, rfl, hat⟩ := h
  exact ⟨hat.regular, hat.height⟩

end ColumnDef

theorem ColumnDrop.height_toJson {c : ColumnDrop} {depth : Nat}
    (h : ∀ r ∈ c.belongsTo, 0 < depth) : c.toJson.height ≤ depth + 1 := by
  unfold toJson
  rw [height_object_le, forall_mem_optionalMember]
  intro r hr
  rw [Relation.height_toJson]
  exact h r hr

theorem ColumnDrop.record_yields :
    record.read.Yields fun depth c => c.toJson.height ≤ depth := by
  have hfields : ∀ field ∈ record.fields,
      field.Keeps fun depth (c : ColumnDrop) => ∀ r ∈ c.belongsTo, 0 < depth := by
    simp only [record, List.forall_mem_cons]
    refine ⟨?_, by simp⟩
    apply Field.keeps_defaulted Relation.record_yields.optional
    intro depth r c hr _
    exact hr
  apply (Record.yields (by simp [record]) hfields).mono
  intro depth c h
  obtain ⟨inner, rfl, hc⟩ := h
  exact ColumnDrop.height_toJson hc

structure BucketAt (P : α → Prop) (value : α → Json) (depth : Nat)
    (bucket : Option (NameMap α)) : Prop where
  nodup : ∀ m ∈ bucket, m.names.Nodup
  entries : ∀ e ∈ bucketEntries bucket, P e.2
  height : ∀ m ∈ bucket, (m.toJson value).height ≤ depth

theorem BucketAt.none (P : α → Prop) (value : α → Json) (depth : Nat) :
    BucketAt P value depth none := by
  constructor <;> simp [bucketEntries]

theorem bucket_yields {read : Reader α} {P : α → Prop} {value : α → Json}
    (h : read.Yields fun depth a => P a ∧ (value a).height ≤ depth) :
    (Reader.optional (NameMap.reader read)).Yields (BucketAt P value) := by
  apply h.nameMap.optional.mono
  intro depth bucket hbucket
  constructor
  . intro m hm
    obtain ⟨_, _, hnodup, _⟩ := hbucket m hm
    exact hnodup
  . intro e he
    rw [mem_bucketEntries] at he
    obtain ⟨m, hm, he⟩ := he
    obtain ⟨_, _, _, hentries⟩ := hbucket m hm
    exact (hentries e he).1
  . intro m hm
    obtain ⟨inner, hdepth, _, hentries⟩ := hbucket m hm
    rw [hdepth]
    unfold NameMap.toJson
    rw [height_object_le, List.forall_mem_map]
    intro e he
    exact (hentries e he).2

namespace TableChange

structure ReadAt (depth : Nat) (t : TableChange) : Prop where
  created : BucketAt ColumnDef.Regular ColumnDef.toJson depth t.created
  updated : BucketAt ColumnDef.Regular ColumnDef.toJson depth t.updated
  deleted : BucketAt (fun _ => True) ColumnDrop.toJson depth t.deleted

theorem ReadAt.regular {depth : Nat} {t : TableChange} (h : t.ReadAt depth) : t.Regular where
  created_nodup := h.created.nodup
  updated_nodup := h.updated.nodup
  deleted_nodup := h.deleted.nodup
  columns := by
    intro e he
    unfold columnDefs at he
    rw [List.mem_append] at he
    cases he with
    | inl he => exact h.created.entries e he
    | inr he => exact h.updated.entries e he

theorem ReadAt.height {depth : Nat} {t : TableChange} (h : t.ReadAt depth) :
    t.toJson.height ≤ depth + 1 := by
  unfold toJson
  rw [height_object_le]
  simp only [List.forall_mem_append, forall_mem_optionalMember]
  exact ⟨⟨⟨by simp, h.created.height⟩, h.updated.height⟩, h.deleted.height⟩

theorem record_keeps : ∀ field ∈ record.fields, field.Keeps ReadAt := by
  have hdrop : ColumnDrop.record.read.Yields fun depth c => True ∧ c.toJson.height ≤ depth := by
    apply ColumnDrop.record_yields.mono
    intro depth c h
    exact ⟨trivial, h⟩
  simp only [record, List.forall_mem_cons]
  refine ⟨?_, ?_, ?_, ?_, by simp⟩
  . apply Field.keeps_mandatory Reader.string_yields
    intro depth s t _ ht
    exact ⟨ht.created, ht.updated, ht.deleted⟩
  . apply Field.keeps_defaulted (bucket_yields ColumnDef.record_yields)
    intro depth m t hm ht
    exact ⟨hm, ht.updated, ht.deleted⟩
  . apply Field.keeps_defaulted (bucket_yields ColumnDef.record_yields)
    intro depth m t hm ht
    exact ⟨ht.created, hm, ht.deleted⟩
  . apply Field.keeps_defaulted (bucket_yields hdrop)
    intro depth m t hm ht
    exact ⟨ht.created, ht.updated, hm⟩

theorem record_yields :
    record.read.Yields fun depth t => t.Regular ∧ t.toJson.height ≤ depth := by
  have hblank : ∀ depth, ReadAt depth record.blank := by
    intro depth
    exact ⟨.none _ _ _, .none _ _ _, .none _ _ _⟩
  apply (Record.yields hblank record_keeps).mono
  intro depth t h
  obtain ⟨inner, rfl, hat⟩ := h
  exact ⟨hat.regular, hat.height⟩

end TableChange

namespace ChangeSet

structure ReadAt (depth : Nat) (cs : ChangeSet) : Prop where
  created : BucketAt TableChange.Regular TableChange.toJson depth cs.created
  updated : BucketAt TableChange.Regular TableChange.toJson depth cs.updated
  deleted : BucketAt TableChange.Regular TableChange.toJson depth cs.deleted

theorem ReadAt.regular {depth : Nat} {cs : ChangeSet} (h : cs.ReadAt depth) : cs.Regular where
  created_nodup := h.created.nodup
  updated_nodup := h.updated.nodup
  deleted_nodup := h.deleted.nodup
  tables := by
    intro e he
    unfold entries keptTables tables at he
    rw [List.mem_append, List.mem_append] at he
    cases he with
    | inl he =>
      cases he with
      | inl he => exact h.created.entries e he
      | inr he => exact h.updated.entries e he
    | inr he => exact h.deleted.entries e he

theorem ReadAt.height {depth : Nat} {cs : ChangeSet} (h : cs.ReadAt depth) :
    cs.toJson.height ≤ depth + 1 := by
  unfold toJson
  rw [height_object_le]
  simp only [List.forall_mem_append, forall_mem_optionalMember]
  exact ⟨⟨h.created.height, h.updated.height⟩, h.deleted.height⟩

theorem record_keeps : ∀ field ∈ record.fields, field.Keeps ReadAt := by
  simp only [record, List.forall_mem_cons]
  refine ⟨?_, ?_, ?_, by simp⟩
  . apply Field.keeps_defaulted (bucket_yields TableChange.record_yields)
    intro depth m cs hm hcs
    exact ⟨hm, hcs.updated, hcs.deleted⟩
  . apply Field.keeps_defaulted (bucket_yields TableChange.record_yields)
    intro depth m cs hm hcs
    exact ⟨hcs.created, hm, hcs.deleted⟩
  . apply Field.keeps_defaulted (bucket_yields TableChange.record_yields)
    intro depth m cs hm hcs
    exact ⟨hcs.created, hcs.updated, hm⟩

theorem record_yields :
    record.read.Yields fun depth cs => cs.Regular ∧ cs.toJson.height ≤ depth := by
  have hblank : ∀ depth, ReadAt depth record.blank := by
    intro depth
    exact ⟨.none _ _ _, .none _ _ _, .none _ _ _⟩
  apply (Record.yields hblank record_keeps).mono
  intro depth cs h
  obtain ⟨inner, rfl, hat⟩ := h
  exact ⟨hat.regular, hat.height⟩

theorem of_document {text : String} {cs : ChangeSet}
    (h : Reader.document record.read text = .ok cs) : cs.Regular ∧ cs.toJson.height ≤ maxDepth := by
  unfold Reader.document at h
  rw [bind_eq_ok_iff] at h
  obtain ⟨⟨cs', rest⟩, hread, h⟩ := h
  dsimp only at h
  split at h
  . rw [Except.ok.injEq] at h
    rw [← h]
    exact record_yields.holds hread
  . contradiction

/--
The text of a change set is read as that change set, if it could be in a document and has no
floating-point numbers. This covers every change set that has been read from a document.
-/
theorem document_text :
    (∀ cs : ChangeSet, cs.Regular → (∀ v ∈ cs.values, v.FloatFree) → cs.toJson.height ≤ maxDepth →
      Reader.document record.read cs.text = .ok cs)
    ∧ ∀ (document : String) (cs : ChangeSet), Reader.document record.read document = .ok cs →
        (∀ v ∈ cs.values, v.FloatFree) → Reader.document record.read cs.text = .ok cs := by
  have hwritten : ∀ cs : ChangeSet, cs.Regular → (∀ v ∈ cs.values, v.FloatFree) →
      cs.toJson.height ≤ maxDepth → Reader.document record.read cs.text = .ok cs := by
    intro cs hregular hfree hheight
    have hread := (readsBack hregular hfree).document Style.blank_compact hheight [] rfl
    rwa [List.append_nil] at hread
  refine ⟨hwritten, ?_⟩
  intro document cs hdocument hfree
  obtain ⟨hregular, hheight⟩ := of_document hdocument
  exact hwritten cs hregular hfree hheight

end ChangeSet

-- Buckets that are there but empty, and a name that has to be escaped.
def oddChanges : ChangeSet where
  created := some ⟨[("it's \"odd\"\n", { connection := "\\", deleted := some ⟨[]⟩ })]⟩
  updated := some ⟨[]⟩

theorem oddChanges_regular : oddChanges.Regular := by
  have hentries : ∀ e ∈ oddChanges.entries, e.2 = { connection := "\\", deleted := some ⟨[]⟩ } := by
    simp [oddChanges, ChangeSet.entries, ChangeSet.keptTables, ChangeSet.tables, ChangeSet.bucket,
      bucketEntries]
  constructor
  . simp [oddChanges, NameMap.names]
  . simp [oddChanges, NameMap.names]
  . simp [oddChanges]
  . intro e he
    rw [hentries e he]
    constructor <;> simp [NameMap.names, TableChange.columnDefs, bucketEntries]

-- The table is written as an array, one bucket is `null`, and one member is no bucket at all.
def spacedDocument : String :=
  "\x7b\"deleted\": null, \"note\": 0.5,\n\"updated\": \x7b\"posts\": [\"main\", \x7b\"a\": "
    ++ "\x7b\"type\": \"string\", \"typeArgs\": [40, null], \"nullable\": true\x7d\x7d]\x7d\x7d"

def spacedChanges : ChangeSet where
  updated := some ⟨[("posts", {
    connection := "main"
    created := some ⟨[("a", {
      type := "string"
      typeArgs := [.number (.integer 40), .null]
      nullable := some (.bool true) })]⟩ })]⟩

set_option maxRecDepth 1000 in
theorem spacedDocument_read :
    Reader.document ChangeSet.record.read spacedDocument = .ok spacedChanges := by
  rfl

theorem spacedChanges_floatFree : ∀ v ∈ spacedChanges.values, v.FloatFree := by
  have hvalues : spacedChanges.values = [.number (.integer 40), .null, .bool true] := rfl
  rw [hvalues]
  simp only [List.forall_mem_cons, List.not_mem_nil, false_imp_iff, implies_true, and_true]
  exact ⟨.integer 40, .null, .bool true⟩

theorem oddChanges_document_text :
    Reader.document ChangeSet.record.read oddChanges.text = .ok oddChanges
      ∧ Reader.document ChangeSet.record.read spacedDocument = .ok spacedChanges
      ∧ Reader.document ChangeSet.record.read spacedChanges.text = .ok spacedChanges := by
  refine ⟨?_, spacedDocument_read, ?_⟩
  . apply ChangeSet.document_text.1 oddChanges oddChanges_regular
    . intro v hv
      simp [oddChanges, ChangeSet.values, ChangeSet.entries, ChangeSet.keptTables,
        ChangeSet.tables, ChangeSet.bucket, bucketEntries, TableChange.values,
        TableChange.columnDefs] at hv
    . decide
  . exact ChangeSet.document_text.2 _ _ spacedDocument_read spacedChanges_floatFree

end SchemaMigration
