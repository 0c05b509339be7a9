import SchemaMigration.Proofs.Json.RepeatedKeys

/-!
This module contains the ways to spell change sets and their parts. For every part, `parts` says how
its own parts may be spelled. A text that follows this is read as the part it spells, and the text
that is written for a part follows it.
-/

namespace SchemaMigration

open Json

namespace ColumnDef

def options (c : ColumnDef) : List (Option Json) :=
  [c.index, c.unique, c.literalDefault, c.primary, c.unsigned, c.nullable, c.useCurrent]

def values (c : ColumnDef) : List Json := c.typeArgs ++ c.options.filterMap id

structure Regular (c : ColumnDef) : Prop where
  values : ∀ v ∈ c.values, v.Regular
  options : ∀ o ∈ c.options, o ≠ some .null

end ColumnDef

namespace TableChange

def values (t : TableChange) : List Json := t.columnDefs.flatMap (·.2.values)

structure Regular (t : TableChange) : Prop where
  created_nodup : ∀ m ∈ t.created, m.names.Nodup
  updated_nodup : ∀ m ∈ t.updated, m.names.Nodup
  deleted_nodup : ∀ m ∈ t.deleted, m.names.Nodup
  columns : ∀ e ∈ t.columnDefs, e.2.Regular

end TableChange

namespace ChangeSet

def entries (cs : ChangeSet) : List (String × TableChange) := cs.keptTables ++ cs.tables .deleted

def values (cs : ChangeSet) : List Json := cs.entries.flatMap (·.2.values)

structure Regular (cs : ChangeSet) : Prop where
  created_nodup : ∀ m ∈ cs.created, m.names.Nodup
  updated_nodup : ∀ m ∈ cs.updated, m.names.Nodup
  deleted_nodup : ∀ m ∈ cs.deleted, m.names.Nodup
  tables : ∀ e ∈ cs.entries, e.2.Regular

end ChangeSet

theorem mem_bucketEntries {bucket : Option (NameMap α)} {e : String × α} :
    e ∈ bucketEntries bucket ↔ ∃ m ∈ bucket, e ∈ m.entries := by
  cases bucket <;> simp [bucketEntries]

namespace Relation

def parts (r : Relation) (_ : Nat) : List Part := [
  .mandatory "foreignKey" (StringText r.foreignKey),
  .mandatory "model" (StringText r.model)]

def Text (r : Relation) : Nat → List Char → Prop := RecordText r.parts

theorem fills (r : Relation) (depth : Nat) :
    ∃ slots, record.Fills depth (r.parts depth) slots r := by
  refine ⟨[
    ⟨_, fun s => { s with foreignKey := r.foreignKey }⟩,
    ⟨_, fun s => { s with model := r.model }⟩], by decide, rfl, ?_, ?_, rfl⟩
  . apply List.Forall₂.cons (Slot.Fits.mandatory fun t h => StringText.finds h depth)
    apply List.Forall₂.cons (Slot.Fits.mandatory fun t h => StringText.finds h depth)
    exact .nil
  . simp

theorem Text.finds {r : Relation} {depth : Nat} {text : List Char} (h : r.Text depth text) :
    record.read.Finds depth text r :=
  Record.finds_text h r.fills

theorem text_write (r : Relation) {style : Style} (hstyle : style.Blank) {level depth : Nat}
    (hheight : r.toJson.height ≤ depth) : r.Text depth (write style level r.toJson) := by
  apply recordText_write hstyle _ hheight
  intro inner
  apply WrittenParts.mandatory fun _ => stringText_encode r.foreignKey
  apply WrittenParts.mandatory fun _ => stringText_encode r.model
  exact .nil

theorem Text.finds_option {relation : Option Relation} {depth : Nat} :
    ∀ r ∈ relation, ∀ t, r.Text depth t → record.read.Finds depth t r ∧ t.head? ≠ some 'n' := by
  intro r _ t ht
  exact ⟨ht.finds, ht.head_ne⟩

theorem fields_agree : ∀ field ∈ record.fields, field.read.Agrees := by
  simp only [record, List.forall_mem_cons]
  refine ⟨?_, ?_, by simp⟩
  . exact Field.mandatory_agrees Reader.string_agrees
  . exact Field.mandatory_agrees Reader.string_agrees

end Relation

namespace ColumnDrop

def parts (c : ColumnDrop) (depth : Nat) : List Part := [
  .optional "belongsTo" (fun r => r.Text depth) c.belongsTo]

def Text (c : ColumnDrop) : Nat → List Char → Prop := RecordText c.parts

theorem fills (c : ColumnDrop) (depth : Nat) :
    ∃ slots, record.Fills depth (c.parts depth) slots c := by
  refine ⟨[⟨_, fun s => { s with belongsTo := c.belongsTo }⟩], by decide, rfl, ?_, ?_, rfl⟩
  . apply List.Forall₂.cons (Slot.Fits.optional Relation.Text.finds_option rfl)
    exact .nil
  . simp

theorem text_write (c : ColumnDrop) {style : Style} (hstyle : style.Blank) {level depth : Nat}
    (hheight : c.toJson.height ≤ depth) : c.Text depth (write style level c.toJson) := by
  apply recordText_write hstyle _ hheight
  intro inner
  rw [← List.append_nil (optionalMember "belongsTo" _ _)]
  apply WrittenParts.optional fun r _ => r.text_write hstyle
  exact .nil

theorem Text.finds {c : ColumnDrop} {depth : Nat} {text : List Char} (h : c.Text depth text) :
    record.read.Finds depth text c :=
  Record.finds_text h c.fills

theorem fields_agree : ∀ field ∈ record.fields, field.read.Agrees := by
  simp only [record, List.forall_mem_cons]
  refine ⟨?_, by simp⟩
  exact Field.optional_agrees (Record.agrees Relation.fields_agree)

end ColumnDrop

namespace ColumnDef

-- Having no arguments is the same as having an empty list of them.
def parts (c : ColumnDef) (depth : Nat) : List Part := [
  .mandatory "type" (StringText c.type),
  ⟨"typeArgs", ValueText depth (.array c.typeArgs), c.typeArgs = []⟩,
  .optional "index" (ValueText depth) c.index,
  .optional "unique" (ValueText depth) c.unique,
  .optional "default" (ValueText depth) c.literalDefault,
  .optional "rawDefault" StringText c.rawDefault,
  .optional "primary" (ValueText depth) c.primary,
  .optional "unsigned" (ValueText depth) c.unsigned,
  .optional "nullable" (ValueText depth) c.nullable,
  .optional "useCurrent" (ValueText depth) c.useCurrent,
  .optional "belongsTo" (fun r => r.Text depth) c.belongsTo]

def Text (c : ColumnDef) : Nat → List Char → Prop := RecordText c.parts

theorem Regular.option {c : ColumnDef} (h : c.Regular) {o : Option Json} (ho : o ∈ c.options)
    {depth : Nat} : ∀ j ∈ o, ∀ t, ValueText depth j t →
      Reader.Finds Reader.value depth t j ∧ t.head? ≠ some 'n' := by
  intro j hj t ht
  have hvalue : j ∈ c.values := by
    unfold ColumnDef.values
    rw [List.mem_append, List.mem_filterMap]
    exact .inr ⟨o, ho, hj⟩
  refine ⟨ht.finds (h.values j hvalue), ht.head_ne ?_⟩
  intro hnull
  rw [Option.mem_def, hnull] at hj
  exact h.options o ho hj

theorem typeArgs_fits {c : ColumnDef} (h : c.Regular) (depth : Nat) :
    Slot.Fits record.blank depth ⟨"typeArgs", ValueText depth (.array c.typeArgs), c.typeArgs = []⟩
      ⟨.defaulted "typeArgs" (Reader.optional (Reader.list Reader.value)) fun args s =>
        { s with typeArgs := args.getD [] }, fun s => { s with typeArgs := c.typeArgs }⟩ := by
  apply Slot.Fits.defaulted rfl
  . intro t ht
    have hregular : ∀ j ∈ c.typeArgs, j.Regular := by
      intro j hj
      exact h.values j (List.mem_append_left _ hj)
    exact ⟨some c.typeArgs, (ht.finds_list hregular).optional (ht.head_ne (by simp)), rfl⟩
  . intro habsent
    rw [habsent]
    rfl
  . rfl

theorem fills {c : ColumnDef} (h : c.Regular) (depth : Nat) :
    ∃ slots, record.Fills depth (c.parts depth) slots c := by
  have hraw : ∀ s ∈ c.rawDefault, ∀ t, StringText s t →
      Reader.string.Finds depth t s ∧ t.head? ≠ some 'n' := by
    intro s _ t ht
    exact ⟨ht.finds depth, ht.head_ne⟩
  have hoption := fun o (ho : o ∈ c.options) => @Regular.option c h o ho depth
  simp only [options, List.forall_mem_cons, List.not_mem_nil, false_imp_iff, implies_true,
    and_true] at hoption
  obtain ⟨hindex, hunique, hdefault, hprimary, hunsigned, hnullable, hcurrent⟩ := hoption
  refine ⟨[
    ⟨_, fun s => { s with type := c.type }⟩,
    ⟨_, fun s => { s with typeArgs := c.typeArgs }⟩,
    ⟨_, fun s => { s with index := c.index }⟩,
    ⟨_, fun s => { s with unique := c.unique }⟩,
    ⟨_, fun s => { s with literalDefault := c.literalDefault }⟩,
    ⟨_, fun s => { s with rawDefault := c.rawDefault }⟩,
    ⟨_, fun s => { s with primary := c.primary }⟩,
    ⟨_, fun s => { s with unsigned := c.unsigned }⟩,
    ⟨_, fun s => { s with nullable := c.nullable }⟩,
    ⟨_, fun s => { s with useCurrent := c.useCurrent }⟩,
    ⟨_, fun s => { s with belongsTo := c.belongsTo }⟩], by decide, rfl, ?_, ?_, rfl⟩
  . apply List.Forall₂.cons (Slot.Fits.mandatory fun t ht => StringText.finds ht depth)
    apply List.Forall₂.cons (typeArgs_fits h depth)
    apply List.Forall₂.cons (Slot.Fits.optional hindex rfl)
    apply List.Forall₂.cons (Slot.Fits.optional hunique rfl)
    apply List.Forall₂.cons (Slot.Fits.optional hdefault rfl)
    apply List.Forall₂.cons (Slot.Fits.optional hraw rfl)
    apply List.Forall₂.cons (Slot.Fits.optional hprimary rfl)
    apply List.Forall₂.cons (Slot.Fits.optional hunsigned rfl)
    apply List.Forall₂.cons (Slot.Fits.optional hnullable rfl)
    apply List.Forall₂.cons (Slot.Fits.optional hcurrent rfl)
    apply List.Forall₂.cons (Slot.Fits.optional Relation.Text.finds_option rfl)
    exact .nil
  . simp

theorem text_write {c : ColumnDef} (hfree : ∀ v ∈ c.values, v.FloatFree) {style : Style}
    (hstyle : style.Blank) {level depth : Nat} (hheight : c.toJson.height ≤ depth) :
    c.Text depth (write style level c.toJson) := by
  apply recordText_write hstyle _ hheight
  intro inner
  have hoption : ∀ o ∈ c.options, ∀ v ∈ o, v.height ≤ inner →
      ValueText inner v (write style (level + 1) v) := by
    intro o ho v hv
    apply valueText_write _ hstyle
    apply hfree
    unfold values
    rw [List.mem_append, List.mem_filterMap]
    exact .inr ⟨o, ho, hv⟩
  simp only [options, List.forall_mem_cons, List.not_mem_nil, false_imp_iff, implies_true,
    and_true] at hoption
  obtain ⟨hindex, hunique, hdefault, hprimary, hunsigned, hnullable, hcurrent⟩ := hoption
  have hargs : ∀ {parts members}, WrittenParts style (level + 1) inner parts members →
      WrittenParts style (level + 1) inner
        (⟨"typeArgs", ValueText inner (.array c.typeArgs), c.typeArgs = []⟩ :: parts)
        ((if c.typeArgs.isEmpty then [] else [("typeArgs", .array c.typeArgs)]) ++ members) := by
    intro parts members h
    split
    . next hempty => exact .absent (List.isEmpty_iff.mp hempty) h
    . apply WrittenParts.present _ h
      intro hheight
      apply valueText_write _ hstyle _ hheight
      refine .array fun v hv => hfree v ?_
      exact List.mem_append_left _ hv
  rw [← List.append_nil (optionalMember "belongsTo" _ _)]
  simp only [List.append_assoc, List.cons_append, List.nil_append]
  apply WrittenParts.mandatory fun _ => stringText_encode c.type
  apply hargs
  apply WrittenParts.optional hindex
  apply WrittenParts.optional hunique
  apply WrittenParts.optional hdefault
  apply WrittenParts.optional fun s _ _ => stringText_encode s
  apply WrittenParts.optional hprimary
  apply WrittenParts.optional hunsigned
  apply WrittenParts.optional hnullable
  apply WrittenParts.optional hcurrent
  apply WrittenParts.optional fun r _ => r.text_write hstyle
  exact .nil

theorem Text.finds {c : ColumnDef} {depth : Nat} {text : List Char} (h : c.Text depth text)
    (hregular : c.Regular) : record.read.Finds depth text c :=
  Record.finds_text h (fills hregular)

theorem fields_agree : ∀ field ∈ record.fields, field.read.Agrees := by
  simp only [record, List.forall_mem_cons]
  refine ⟨?_, ?_, ?_, ?_, ?_, ?_, ?_, ?_, ?_, ?_, ?_, by simp⟩
  case refine_1 => exact Field.mandatory_agrees Reader.string_agrees
  case refine_2 => exact Field.optional_agrees Reader.value_agrees.list
  case refine_6 => exact Field.optional_agrees Reader.string_agrees
  case refine_11 => exact Field.optional_agrees (Record.agrees Relation.fields_agree)
  all_goals exact Field.optional_agrees Reader.value_agrees

end ColumnDef

theorem bucket_finds {entry : α → Nat → List Char → Prop} {read : Reader α}
    {bucket : Option (NameMap α)} (hnames : ∀ m ∈ bucket, m.names.Nodup)
    (h : ∀ e ∈ bucketEntries bucket, ∀ {inner : Nat} {text : List Char}, entry e.2 inner text →
      read.Finds inner text e.2) {depth : Nat} :
    ∀ m ∈ bucket, ∀ t, m.Text entry depth t →
      (NameMap.reader read).Finds depth t m ∧ t.head? ≠ some 'n' := by
  intro m hm t ht
  refine ⟨ht.finds (hnames m hm) ?_, ht.head_ne⟩
  intro e he
  apply h
  rw [mem_bucketEntries]
  exact ⟨m, hm, he⟩

theorem bucket_write {entry : α → Nat → List Char → Prop} {value : α → Json}
    {bucket : Option (NameMap α)} {style : Style} (hstyle : style.Blank) {level : Nat}
    (h : ∀ e ∈ bucketEntries bucket, ∀ {inner : Nat}, (value e.2).height ≤ inner →
      entry e.2 inner (write style (level + 1) (value e.2))) {depth : Nat} :
    ∀ m ∈ bucket, (m.toJson value).height ≤ depth →
      m.Text entry depth (write style level (m.toJson value)) := by
  intro m hm
  apply NameMap.text_write hstyle
  intro e he
  apply h
  rw [mem_bucketEntries]
  exact ⟨m, hm, he⟩

namespace TableChange

def parts (t : TableChange) (depth : Nat) : List Part := [
  .mandatory "connection" (StringText t.connection),
  .optional "created" (fun m => m.Text ColumnDef.Text depth) t.created,
  .optional "updated" (fun m => m.Text ColumnDef.Text depth) t.updated,
  .optional "deleted" (fun m => m.Text ColumnDrop.Text depth) t.deleted]

def Text (t : TableChange) : Nat → List Char → Prop := RecordText t.parts

theorem fills {t : TableChange} (h : t.Regular) (depth : Nat) :
    ∃ slots, record.Fills depth (t.parts depth) slots t := by
  have hcreated := @bucket_finds _ ColumnDef.Text _ _ h.created_nodup (by
    intro e he inner text htext
    exact htext.finds (h.columns e (List.mem_append_left _ he))) depth
  have hupdated := @bucket_finds _ ColumnDef.Text _ _ h.updated_nodup (by
    intro e he inner text htext
    exact htext.finds (h.columns e (List.mem_append_right _ he))) depth
  have hdeleted := @bucket_finds _ ColumnDrop.Text _ _ h.deleted_nodup (by
    intro e _ inner text htext
    exact htext.finds) depth
  refine ⟨[
    ⟨_, fun s => { s with connection := t.connection }⟩,
    ⟨_, fun s => { s with created := t.created }⟩,
    ⟨_, fun s => { s with updated := t.updated }⟩,
    ⟨_, fun s => { s with deleted := t.deleted }⟩], by decide, rfl, ?_, ?_, rfl⟩
  . apply List.Forall₂.cons (Slot.Fits.mandatory fun t ht => StringText.finds ht depth)
    apply List.Forall₂.cons (Slot.Fits.optional hcreated rfl)
    apply List.Forall₂.cons (Slot.Fits.optional hupdated rfl)
    apply List.Forall₂.cons (Slot.Fits.optional hdeleted rfl)
    exact .nil
  . simp

theorem text_write {t : TableChange} (hfree : ∀ v ∈ t.values, v.FloatFree) {style : Style}
    (hstyle : style.Blank) {level depth : Nat} (hheight : t.toJson.height ≤ depth) :
    t.Text depth (write style level t.toJson) := by
  apply recordText_write hstyle _ hheight
  intro inner
  have hcolumns : ∀ e ∈ t.columnDefs, ∀ {inner : Nat}, e.2.toJson.height ≤ inner →
      e.2.Text inner (write style (level + 2) e.2.toJson) := by
    intro e he inner
    apply ColumnDef.text_write _ hstyle
    intro v hv
    apply hfree
    unfold values
    rw [List.mem_flatMap]
    exact ⟨e, he, hv⟩
  rw [← List.append_nil (optionalMember "deleted" _ _)]
  simp only [List.append_assoc, List.cons_append, List.nil_append]
  apply WrittenParts.mandatory fun _ => stringText_encode t.connection
  apply WrittenParts.optional
  . apply bucket_write hstyle
    intro e he
    exact hcolumns e (List.mem_append_left _ he)
  apply WrittenParts.optional
  . apply bucket_write hstyle
    intro e he
    exact hcolumns e (List.mem_append_right _ he)
  apply WrittenParts.optional
  . apply bucket_write hstyle
    intro e _
    exact e.2.text_write hstyle
  exact .nil

theorem Text.finds {t : TableChange} {depth : Nat} {text : List Char} (h : t.Text depth text)
    (hregular : t.Regular) : record.read.Finds depth text t :=
  Record.finds_text h (fills hregular)

theorem fields_agree : ∀ field ∈ record.fields, field.read.Agrees := by
  have hcolumns := (Record.agrees ColumnDef.fields_agree).nameMap
  have hdrops := (Record.agrees ColumnDrop.fields_agree).nameMap
  simp only [record, List.forall_mem_cons]
  refine ⟨?_, ?_, ?_, ?_, by simp⟩
  . exact Field.mandatory_agrees Reader.string_agrees
  . exact Field.optional_agrees hcolumns
  . exact Field.optional_agrees hcolumns
  . exact Field.optional_agrees hdrops

end TableChange

namespace ChangeSet

def parts (cs : ChangeSet) (depth : Nat) : List Part := [
  .optional "created" (fun m => m.Text TableChange.Text depth) cs.created,
  .optional "updated" (fun m => m.Text TableChange.Text depth) cs.updated,
  .optional "deleted" (fun m => m.Text TableChange.Text depth) cs.deleted]

def Text (cs : ChangeSet) : Nat → List Char → Prop := RecordText cs.parts

theorem fills {cs : ChangeSet} (h : cs.Regular) (depth : Nat) :
    ∃ slots, record.Fills depth (cs.parts depth) slots cs := by
  have hcreated := @bucket_finds _ TableChange.Text _ _ h.created_nodup (by
    intro e he inner text htext
    exact htext.finds (h.tables e (List.mem_append_left _ (List.mem_append_left _ he)))) depth
  have hupdated := @bucket_finds _ TableChange.Text _ _ h.updated_nodup (by
    intro e he inner text htext
    exact htext.finds (h.tables e (List.mem_append_left _ (List.mem_append_right _ he)))) depth
  have hdeleted := @bucket_finds _ TableChange.Text _ _ h.deleted_nodup (by
    intro e he inner text htext
    exact htext.finds (h.tables e (List.mem_append_right _ he))) depth
  refine ⟨[
    ⟨_, fun s => { s with created := cs.created }⟩,
    ⟨_, fun s => { s with updated := cs.updated }⟩,
    ⟨_, fun s => { s with deleted := cs.deleted }⟩], by decide, rfl, ?_, ?_, rfl⟩
  . apply List.Forall₂.cons (Slot.Fits.optional hcreated rfl)
    apply List.Forall₂.cons (Slot.Fits.optional hupdated rfl)
    apply List.Forall₂.cons (Slot.Fits.optional hdeleted rfl)
    exact .nil
  . simp

theorem text_write {cs : ChangeSet} (hfree : ∀ v ∈ cs.values, v.FloatFree) {style : Style}
    (hstyle : style.Blank) {level depth : Nat} (hheight : cs.toJson.height ≤ depth) :
    cs.Text depth (write style level cs.toJson) := by
  apply recordText_write hstyle _ hheight
  intro inner
  have htables : ∀ e ∈ cs.entries, ∀ {inner : Nat}, e.2.toJson.height ≤ inner →
      e.2.Text inner (write style (level + 2) e.2.toJson) := by
    intro e he inner
    apply TableChange.text_write _ hstyle
    intro v hv
    apply hfree
    unfold values
    rw [List.mem_flatMap]
    exact ⟨e, he, hv⟩
  rw [← List.append_nil (optionalMember "deleted" _ _)]
  simp only [List.append_assoc]
  apply WrittenParts.optional
  . apply bucket_write hstyle
    intro e he
    exact htables e (List.mem_append_left _ (List.mem_append_left _ he))
  apply WrittenParts.optional
  . apply bucket_write hstyle
    intro e he
    exact htables e (List.mem_append_left _ (List.mem_append_right _ he))
  apply WrittenParts.optional
  . apply bucket_write hstyle
    intro e he
    exact htables e (List.mem_append_right _ he)
  exact .nil

theorem Text.finds {cs : ChangeSet} {depth : Nat} {text : List Char} (h : cs.Text depth text)
    (hregular : cs.Regular) : record.read.Finds depth text cs :=
  Record.finds_text h (fills hregular)

theorem fields_agree : ∀ field ∈ record.fields, field.read.Agrees := by
  have htables := (Record.agrees TableChange.fields_agree).nameMap
  simp only [record, List.forall_mem_cons]
  refine ⟨?_, ?_, ?_, by simp⟩
  . exact Field.optional_agrees htables
  . exact Field.optional_agrees htables
  . exact Field.optional_agrees htables

/--
However a change set or a part of one is spelled, the document is read as it; what is written for a
change set is one of its spellings. No object that has a key of its record twice is read.
-/
theorem document_spelled :
    (∀ (r : Relation) (document : String), DocumentText r.Text document →
      Reader.document Relation.record.read document = .ok r) ∧
    (∀ (c : ColumnDrop) (document : String), DocumentText c.Text document →
      Reader.document ColumnDrop.record.read document = .ok c) ∧
    (∀ c : ColumnDef, c.Regular → ∀ document : String, DocumentText c.Text document →
      Reader.document ColumnDef.record.read document = .ok c) ∧
    (∀ t : TableChange, t.Regular → ∀ document : String, DocumentText t.Text document →
      Reader.document TableChange.record.read document = .ok t) ∧
    (∀ cs : ChangeSet, cs.Regular → ∀ document : String, DocumentText cs.Text document →
      Reader.document record.read document = .ok cs) ∧
    (∀ cs : ChangeSet, (∀ v ∈ cs.values, v.FloatFree) → cs.toJson.height ≤ maxDepth →
      DocumentText cs.Text cs.text) ∧
    Relation.record.RefusesRepeats ∧ ColumnDrop.record.RefusesRepeats ∧
    ColumnDef.record.RefusesRepeats ∧ TableChange.record.RefusesRepeats ∧
    record.RefusesRepeats := by
  refine ⟨?_, ?_, ?_, ?_, ?_, ?_, ?_, ?_, ?_, ?_, ?_⟩
  . intro r document h
    exact h.document Relation.Text.finds
  . intro c document h
    exact h.document ColumnDrop.Text.finds
  . intro c hregular document h
    exact h.document fun htext => ColumnDef.Text.finds htext hregular
  . intro t hregular document h
    exact h.document fun htext => TableChange.Text.finds htext hregular
  . intro cs hregular document h
    exact h.document fun htext => Text.finds htext hregular
  . intro cs hfree hheight
    have htext := @text_write cs hfree _ Style.blank_compact 0 _ hheight
    refine ⟨[], _, [], rfl, rfl, htext, ?_⟩
    rw [List.append_nil, List.nil_append]
    rfl
  . exact Record.refusesRepeats Relation.fields_agree
  . exact Record.refusesRepeats ColumnDrop.fields_agree
  . exact Record.refusesRepeats ColumnDef.fields_agree
  . exact Record.refusesRepeats TableChange.fields_agree
  . exact Record.refusesRepeats fields_agree

end ChangeSet

def authorRelation : Relation := ⟨"author_id", "User"⟩

def authorColumn : ColumnDef where
  type := "integer"
  belongsTo := some authorRelation

def postsChange : TableChange where
  connection := "main"
  created := some ⟨[("author", authorColumn)]⟩

def postsChanges : ChangeSet where
  updated := some ⟨[("posts", postsChange)]⟩

-- Members that are no buckets stand between those that are, one of them twice.
def postsDocument : String :=
  " \x7b\"note\":\x7b\"a\":[1e999,\"\\ud800\"]\x7d,\"deleted\":null,\"note\":0,"
    ++ "\"updated\":\x7b\"posts\":[\"main\",\x7b\"author\":\x7b\"belongsTo\":"
    ++ "[\"author_id\",\"User\"],\"\\u0074ype\":\"integer\",\"typeArgs\":null\x7d\x7d]\x7d\x7d\n"

def itemTexts (closing : Char) (items : List (List Char)) : List Char :=
  insideBrackets .compact 0 closing items

theorem inside_itemTexts (closing : Char) (items : List (List Char)) :
    Inside closing items (itemTexts closing items) :=
  inside_insideBrackets Style.blank_compact 0 closing items

theorem memberItem_encode (key : String) (value : List Char) :
    MemberItem (key, value) (Quoted.encode key ++ ':' :: value) :=
  ⟨_, stringText_encode key, [], [], rfl, rfl, rfl⟩

def relationText : List Char :=
  '[' :: itemTexts ']' [Quoted.encode "author_id", Quoted.encode "User"]

theorem relationText_spells (depth : Nat) : authorRelation.Text (depth + 1) relationText := by
  right
  refine ⟨_, ?_, _, inside_itemTexts _ _, rfl⟩
  apply RecordItems.cons (.inl (stringText_encode _))
  apply RecordItems.cons (.inl (stringText_encode _))
  exact .cut (by simp)

def columnText : List Char :=
  '\x7b' :: itemTexts '\x7d' [
    Quoted.encode "belongsTo" ++ ':' :: relationText,
    "\"\\u0074ype\"".toList ++ ':' :: Quoted.encode "integer",
    Quoted.encode "typeArgs" ++ ':' :: nullText]

theorem stringText_type : StringText "type" "\"\\u0074ype\"".toList := by
  refine ⟨[['\\', 'u', '0', '0', '7', '4'], ['y'], ['p'], ['e']], ?_, rfl⟩
  apply List.Forall₂.cons (.unit rfl)
  apply List.Forall₂.cons (.plain (by decide) (by decide) (by decide))
  apply List.Forall₂.cons (.plain (by decide) (by decide) (by decide))
  apply List.Forall₂.cons (.plain (by decide) (by decide) (by decide))
  exact .nil

theorem columnText_spells (depth : Nat) : authorColumn.Text (depth + 2) columnText := by
  left
  refine ⟨[("belongsTo", relationText), ("type", Quoted.encode "integer"), ("typeArgs", nullText)],
    ⟨⟨[.optional "belongsTo" (fun r => r.Text (depth + 1)) (some authorRelation),
        .mandatory "type" (StringText "integer"),
        ⟨"typeArgs", ValueText (depth + 1) (.array []), authorColumn.typeArgs = []⟩],
      ((authorColumn.parts (depth + 1)).drop 2).take 8, ?_, ?_, ?_⟩, ?_⟩, _, _, ?_,
    inside_itemTexts _ _, rfl⟩
  . exact (List.perm_append_singleton _ ((authorColumn.parts (depth + 1)).take 10)).symm
  . simp [ColumnDef.parts, authorColumn, Part.optional]
  . rw [List.filter_eq_self.mpr (by simp [ColumnDef.parts, Part.mandatory, Part.optional])]
    apply List.Forall₂.cons ⟨rfl, .inl ⟨_, rfl, relationText_spells depth⟩⟩
    apply List.Forall₂.cons ⟨rfl, .inl (stringText_encode _)⟩
    apply List.Forall₂.cons ⟨rfl, .inr ⟨rfl, rfl⟩⟩
    exact .nil
  . simp [ColumnDef.parts, Part.mandatory, Part.optional]
  . apply List.Forall₂.cons (memberItem_encode _ _)
    apply List.Forall₂.cons ⟨_, stringText_type, [], [], rfl, rfl, rfl⟩
    apply List.Forall₂.cons (memberItem_encode _ _)
    exact .nil

def mapText (name : String) (value : List Char) : List Char :=
  '\x7b' :: itemTexts '\x7d' [Quoted.encode name ++ ':' :: value]

theorem mapText_spells {entry : α → Nat → List Char → Prop} {a : α} {depth : Nat}
    {value : List Char} (h : entry a depth value) (name : String) :
    (⟨[(name, a)]⟩ : NameMap α).Text entry (depth + 1) (mapText name value) := by
  refine ⟨[(name, value)], ?_, _, _, ?_, inside_itemTexts _ _, rfl⟩
  . exact .cons ⟨rfl, h⟩ .nil
  . exact .cons (memberItem_encode _ _) .nil

def tableText : List Char :=
  '[' :: itemTexts ']' [Quoted.encode "main", mapText "author" columnText]

theorem tableText_spells (depth : Nat) : postsChange.Text (depth + 4) tableText := by
  right
  refine ⟨_, .cons ?_ (.cons ?_ (.cut ?_)), _, inside_itemTexts _ _, rfl⟩
  . exact .inl (stringText_encode _)
  . exact .inl ⟨_, rfl, mapText_spells (columnText_spells depth) _⟩
  . simp [postsChange, Part.optional]

-- The number is out of range, and the string is half of a pair.
def oddText : List Char := '[' :: itemTexts ']' ["1e999".toList, "\"\\ud800\"".toList]

theorem valueSyntax_oddText : ValueSyntax oddText := by
  have hnumber : NumberSyntax "1e999".toList := by
    apply @NumberSyntax.mk [] ['1'] [] ['e', '9', '9', '9']
    . decide
    . simp [Digits]
    . simp
    . exact .absent
    . exact @ExponentSyntax.present 'e' [] _ (.inl rfl) (by decide) (by simp [Digits])
  have hstring : StringSyntax "\"\\ud800\"".toList := by
    refine ⟨[['\\', 'u', 'd', '8', '0', '0']], ?_, rfl⟩
    rw [List.forall_mem_singleton]
    exact .unit rfl
  refine .array ?_ ⟨_, inside_itemTexts _ _, rfl⟩
  simp only [List.forall_mem_cons, List.not_mem_nil, false_imp_iff, implies_true, and_true]
  exact ⟨.number hnumber, .string hstring⟩

theorem valueSyntax_mapText {value : List Char} (h : ValueSyntax value) (name : String) :
    ValueSyntax (mapText name value) := by
  apply @ValueSyntax.object [(Quoted.encode name, value)]
  . rw [List.forall_mem_singleton]
    exact (stringText_encode name).stringSyntax
  . rwa [List.forall_mem_singleton]
  . exact ⟨_, _, .cons ⟨[], [], rfl, rfl, rfl⟩ .nil, inside_itemTexts _ _, rfl⟩

def changesText : List Char :=
  '\x7b' :: itemTexts '\x7d' [
    Quoted.encode "note" ++ ':' :: mapText "a" oddText,
    Quoted.encode "deleted" ++ ':' :: nullText,
    Quoted.encode "note" ++ ':' :: ['0'],
    Quoted.encode "updated" ++ ':' :: mapText "posts" tableText]

theorem valueSyntax_zero : ValueSyntax ['0'] := by
  apply ValueSyntax.number
  apply @NumberSyntax.mk [] ['0'] [] []
  . decide
  . simp [Digits]
  . simp
  . exact .absent
  . exact .absent

theorem changesText_spells (depth : Nat) : postsChanges.Text (depth + 6) changesText := by
  have hkeys : (postsChanges.parts (depth + 5)).map (·.key) =
      ["created", "updated", "deleted"] := rfl
  left
  refine ⟨[("note", mapText "a" oddText), ("deleted", nullText), ("note", ['0']),
    ("updated", mapText "posts" tableText)], ⟨⟨
      (postsChanges.parts (depth + 5)).reverse.take 2, (postsChanges.parts (depth + 5)).take 1,
      ?_, ?_, ?_⟩, ?_⟩, _, _, ?_, inside_itemTexts _ _, rfl⟩
  . exact List.reverse_perm (postsChanges.parts (depth + 5))
  . simp [ChangeSet.parts, postsChanges, Part.optional]
  . rw [hkeys]
    have hown : [("note", mapText "a" oddText), ("deleted", nullText), ("note", ['0']),
        ("updated", mapText "posts" tableText)].filter
          (fun m => ["created", "updated", "deleted"].contains m.1) =
        [("deleted", nullText), ("updated", mapText "posts" tableText)] := by simp
    rw [hown]
    refine .cons ⟨rfl, ?_⟩ (.cons ⟨rfl, ?_⟩ .nil)
    . exact .inr ⟨rfl, rfl⟩
    . exact .inl ⟨_, rfl, mapText_spells (tableText_spells depth) _⟩
  . rw [hkeys]
    simp only [List.forall_mem_cons]
    refine ⟨fun _ => valueSyntax_mapText valueSyntax_oddText _, ?_, fun _ => valueSyntax_zero, ?_⟩
    . simp
    . simp
  . apply List.Forall₂.cons (memberItem_encode _ _)
    apply List.Forall₂.cons (memberItem_encode _ _)
    apply List.Forall₂.cons (memberItem_encode _ _)
    apply List.Forall₂.cons (memberItem_encode _ _)
    exact .nil

set_option maxRecDepth 2000 in
theorem postsDocument_spells : DocumentText postsChanges.Text postsDocument :=
  ⟨[' '], changesText, ['\n'], rfl, rfl, changesText_spells 121, rfl⟩

theorem authorColumn_regular : authorColumn.Regular := by
  constructor
  . simp [authorColumn, ColumnDef.values, ColumnDef.options]
  . simp [authorColumn, ColumnDef.options]

theorem postsChange_regular : postsChange.Regular := by
  constructor
  . simp [postsChange, NameMap.names]
  . simp [postsChange]
  . simp [postsChange]
  . simpa [postsChange, TableChange.columnDefs, bucketEntries] using authorColumn_regular

theorem postsChanges_regular : postsChanges.Regular := by
  constructor
  . simp [postsChanges]
  . simp [postsChanges, NameMap.names]
  . simp [postsChanges]
  . simpa [postsChanges, ChangeSet.entries, ChangeSet.keptTables, ChangeSet.tables,
      ChangeSet.bucket, bucketEntries] using postsChange_regular

-- One bucket twice, and `null` both times.
def repeatedText : List Char :=
  '\x7b' :: itemTexts '\x7d' [
    Quoted.encode "created" ++ ':' :: nullText, Quoted.encode "created" ++ ':' :: nullText]

theorem repeatedText_repeats : ChangeSet.record.Repeats repeatedText := by
  refine ⟨[(Quoted.encode "created", nullText), (Quoted.encode "created", nullText)], ?_, ?_, ?_,
    _, _, .refl _, "created", by decide, stringText_encode _, stringText_encode _⟩
  . simpa using (stringText_encode "created").stringSyntax
  . simp only [List.forall_mem_cons, List.not_mem_nil, false_imp_iff, implies_true, and_true]
    exact ⟨.null, .null⟩
  . refine ⟨_, _, ?_, inside_itemTexts _ _, rfl⟩
    exact .cons ⟨[], [], rfl, rfl, rfl⟩ (.cons ⟨[], [], rfl, rfl, rfl⟩ .nil)

theorem postsDocument_document_spelled :
    Reader.document ChangeSet.record.read postsDocument = .ok postsChanges ∧
      DocumentText postsChanges.Text postsChanges.text ∧
      Reader.document ColumnDef.record.read (String.ofList columnText) = .ok authorColumn ∧
      ∀ cs, Reader.document ChangeSet.record.read (String.ofList repeatedText) ≠ .ok cs := by
  obtain ⟨_, _, hcolumn, _, hchanges, hwritten, _, _, _, _, hrepeats⟩ := ChangeSet.document_spelled
  refine ⟨hchanges postsChanges postsChanges_regular postsDocument postsDocument_spells, ?_, ?_, ?_⟩
  . apply hwritten
    . intro v hv
      have hnone : v ∈ ([] : List Json) := hv
      contradiction
    . decide
  . apply hcolumn authorColumn authorColumn_regular
    exact ⟨[], columnText, [], rfl, rfl, columnText_spells 125, by simp⟩
  . apply hrepeats.document
    exact ⟨[], repeatedText, [], rfl, rfl, repeatedText_repeats, by simp⟩

end SchemaMigration
