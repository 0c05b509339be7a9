import Mathlib.Logic.Relation
import SchemaMigration.Proofs.ChangeSetSource
import SchemaMigration.Proofs.ChangeSetSpelling
import SchemaMigration.Proofs.Json.PartialRecord
import SchemaMigration.Proofs.Outcome
import SchemaMigration.Proofs.Validate

/-!
This module contains that an object that defines a column will do where a column is deleted. If such
objects are moved from the defined columns of updated tables to the deleted ones, a document that
was accepted still is.
-/

namespace SchemaMigration

open Json Lexeme

def ColumnDef.toDrop (c : ColumnDef) : ColumnDrop := { belongsTo := c.belongsTo }

theorem ColumnDef.fields_spare :
    ∀ field ∈ record.fields, field.key ≠ "belongsTo" → field.read.Spares toDrop := by
  simp only [record, List.forall_mem_cons]
  refine ⟨?_, ?_, ?_, ?_, ?_, ?_, ?_, ?_, ?_, ?_, ?_, by simp⟩
  case refine_1 => exact fun _ => Field.mandatory_spares fun _ _ => rfl
  case refine_11 =>
    intro hkey
    exact absurd rfl hkey
  all_goals exact fun _ => Field.defaulted_spares fun _ _ => rfl

theorem ColumnDrop.partOf : record.PartOf ColumnDef.record ColumnDef.toDrop where
  agrees := ColumnDef.fields_agree
  blank := rfl
  optional := by simp [record, Field.defaulted]
  shared := by
    intro key field hfield
    obtain rfl : key = "belongsTo" := by
      have hkey := List.find?_some hfield
      have hmem := List.mem_of_find?_eq_some hfield
      rw [record, List.mem_singleton] at hmem
      rw [hmem] at hkey
      exact (beq_iff_eq.mp hkey).symm
    obtain rfl := Option.some.inj hfield
    refine ⟨_, rfl, ?_⟩
    intro depth cs rest set' hread
    refine Field.defaulted_shared ?_ hread
    intro _ _
    rfl
  others := by
    intro key field hnone hfield
    apply ColumnDef.fields_spare field (List.mem_of_find?_eq_some hfield)
    rintro hkey
    have heq := List.find?_some hfield
    rw [beq_iff_eq, hkey] at heq
    rw [← heq] at hnone
    contradiction

inductive NameMap.Edits {α : Type} (change : α → α → Prop) : NameMap α → NameMap α → Prop where
  | mk {name : String} {a a' : α} {before after : List (String × α)} (h : change a a') :
      Edits change ⟨before ++ (name, a) :: after⟩ ⟨before ++ (name, a') :: after⟩

inductive TableSource.Takes (column : Source) : TableSource → TableSource → Prop where
  | created {s : TableSource} {name : String} {before after : List (String × Source)}
      (h : s.created = some ⟨before ++ (name, column) :: after⟩) :
      Takes column s { s with created := some ⟨before ++ after⟩ }
  | updated {s : TableSource} {name : String} {before after : List (String × Source)}
      (h : s.updated = some ⟨before ++ (name, column) :: after⟩) :
      Takes column s { s with updated := some ⟨before ++ after⟩ }

inductive TableSource.Puts (column : Source) : TableSource → TableSource → Prop where
  | deleted {s : TableSource} {name : String} {before after : List (String × Source)}
      (h : bucketEntries s.deleted = before ++ after) (hnew : name ∉ (before ++ after).map (·.1)) :
      Puts column s { s with deleted := some ⟨before ++ (name, column) :: after⟩ }

/--
An object that defines a column of an updated table is moved to the deleted columns of the same
table or of another one.
-/
inductive ChangeSource.Moves : ChangeSource → ChangeSource → Prop where
  | mk {s : ChangeSource} {column : Source} {tables between tables' : NameMap TableSource}
      (hobject : column.text.head? = some '\x7b') (h : s.updated = some tables)
      (htakes : tables.Edits (TableSource.Takes column) between)
      (hputs : between.Edits (TableSource.Puts column) tables') :
      Moves s { s with updated := some tables' }

namespace NameMap

variable {α β : Type} {gives : β → Nat → α → Prop} {depth : Nat} {m : NameMap α} {name : String}
  {before after : List (String × β)} {b : β} {a : α}

theorem Gives.middle (h : NameMap.Gives gives ⟨before ++ (name, b) :: after⟩ (depth + 1) m) :
    ∃ before' a after', m.entries = before' ++ (name, a) :: after' ∧ gives b depth a ∧
      List.Forall₂ (fun s e => s.1 = e.1 ∧ gives s.2 depth e.2) before before' ∧
      List.Forall₂ (fun s e => s.1 = e.1 ∧ gives s.2 depth e.2) after after' := by
  obtain ⟨before', _, hentries, hbefore, hrest⟩ := forall₂_append_left h.2
  cases hrest with
  | @cons _ e _ after' hentry hafter =>
    obtain ⟨_, a⟩ := e
    obtain ⟨rfl, ha⟩ := hentry
    exact ⟨before', a, after', hentries, ha, hbefore, hafter⟩

theorem Gives.remove (h : NameMap.Gives gives ⟨before ++ (name, b) :: after⟩ (depth + 1) m) :
    (∃ a, gives b depth a ∧ (name, a) ∈ m.entries) ∧
    ∃ m' : NameMap α, NameMap.Gives gives ⟨before ++ after⟩ (depth + 1) m' ∧
      m'.entries ⊆ m.entries := by
  obtain ⟨before', a, after', hentries, ha, hbefore, hafter⟩ := h.middle
  have hsublist : (before' ++ after').Sublist m.entries := by
    rw [hentries]
    exact (List.sublist_cons_self _ _).append_left before'
  refine ⟨⟨a, ha, by simp [hentries]⟩, ⟨before' ++ after'⟩, ⟨?_, ?_⟩, hsublist.subset⟩
  . have hnames := hsublist.map (·.1)
    exact h.1.sublist hnames
  . exact List.rel_append hbefore hafter

theorem Gives.insert (h : NameMap.Gives gives ⟨before ++ after⟩ (depth + 1) m)
    (hnew : name ∉ (before ++ after).map (·.1)) (ha : gives b depth a) :
    ∃ m' : NameMap α, NameMap.Gives gives ⟨before ++ (name, b) :: after⟩ (depth + 1) m' ∧
      ∀ e ∈ m'.entries, e ∈ m.entries ∨ e.2 = a := by
  have hnames : (before ++ after).map (·.1) = m.entries.map (·.1) :=
    map_eq_map_of_forall₂ h.2 fun _ _ hentry => hentry.1
  obtain ⟨before', after', hentries, hbefore, hafter⟩ := forall₂_append_left h.2
  refine ⟨⟨before' ++ (name, a) :: after'⟩, ⟨?_, ?_⟩, ?_⟩
  . rw [hnames] at hnew
    have hnodup : (m.entries.map (·.1)).Nodup := h.1
    rw [hentries, List.map_append] at hnew hnodup
    unfold NameMap.names
    rw [List.map_append, List.map_cons, List.nodup_middle]
    exact List.nodup_cons.mpr ⟨hnew, hnodup⟩
  . exact List.rel_append hbefore (.cons ⟨rfl, ha⟩ hafter)
  . intro e he
    rw [List.mem_append, List.mem_cons] at he
    rw [hentries, List.mem_append]
    obtain he | rfl | he := he
    . exact .inl (.inl he)
    . exact .inr rfl
    . exact .inl (.inr he)

end NameMap

namespace NameMap.Edits

variable {α β : Type} {R : β → Nat → α → Prop} {depth : Nat} {m : NameMap α}
  {change : β → β → Prop} {source source' : NameMap β}

theorem exists_mem (h : source.Edits change source') (hm : source.Gives R (depth + 1) m) :
    ∃ b b', change b b' ∧ ∃ e ∈ m.entries, R b depth e.2 := by
  cases h with
  | @mk name b b' _ _ hb =>
    obtain ⟨_, a, _, hentries, ha, _, _⟩ := hm.middle
    exact ⟨b, b', hb, (name, a), by simp [hentries], ha⟩

theorem gives (h : source.Edits change source') (hm : source.Gives R (depth + 1) m)
    {S : α → α → Prop} (hrefl : ∀ a, S a a)
    (hchange : ∀ {b b' a}, change b b' → R b depth a → ∃ a', R b' depth a' ∧ S a a') :
    ∃ m' : NameMap α, source'.Gives R (depth + 1) m' ∧
      List.Forall₂ (fun e e' => e.1 = e'.1 ∧ S e.2 e'.2) m.entries m'.entries := by
  cases h with
  | @mk name b b' before after hb =>
    obtain ⟨before', a, after', hentries, ha, hbefore, hafter⟩ := hm.middle
    obtain ⟨a', ha', hS⟩ := hchange hb ha
    refine ⟨⟨before' ++ (name, a') :: after'⟩, ⟨?_, ?_⟩, ?_⟩
    . have hnodup : (m.entries.map (·.1)).Nodup := hm.1
      rw [hentries] at hnodup
      simpa [NameMap.names] using hnodup
    . exact List.rel_append hbefore (.cons ⟨rfl, ha'⟩ hafter)
    . have hsame : ∀ es : List (String × α),
          List.Forall₂ (fun e e' => e.1 = e'.1 ∧ S e.2 e'.2) es es := by
        intro es
        rw [List.forall₂_same]
        exact fun e _ => ⟨rfl, hrefl e.2⟩
      rw [hentries]
      exact List.rel_append (hsame before') (.cons ⟨rfl, hS⟩ (hsame after'))

end NameMap.Edits

structure TableChange.Shrinks (c : ColumnDef) (t t' : TableChange) : Prop where
  connection : t'.connection = t.connection
  columnDefs : t'.columnDefs ⊆ t.columnDefs
  deleted : ∀ e ∈ bucketEntries t'.deleted, e ∈ bucketEntries t.deleted ∨ e.2 = c.toDrop

theorem TableChange.Shrinks.refl (c : ColumnDef) (t : TableChange) : t.Shrinks c t where
  connection := rfl
  columnDefs := List.Subset.refl _
  deleted _ he := .inl he

theorem TableChange.Shrinks.trans {c : ColumnDef} {t t' t'' : TableChange} (h : t.Shrinks c t')
    (h' : t'.Shrinks c t'') : t.Shrinks c t'' where
  connection := h'.connection.trans h.connection
  columnDefs := List.Subset.trans h'.columnDefs h.columnDefs
  deleted := by
    intro e he
    cases h'.deleted e he with
    | inl he => exact h.deleted e he
    | inr he => exact .inr he

section Bucket

variable {α β : Type} {gives : β → Nat → α → Prop} {depth : Nat} {source : Option (NameMap β)}
  {bucket : Option (NameMap α)} {name : String} {before after : List (String × β)} {b : β} {a : α}

theorem bucket_takes
    (hbucket : Option.Rel (fun m => NameMap.Gives gives m (depth + 1)) source bucket)
    (h : source = some ⟨before ++ (name, b) :: after⟩) :
    (∃ a, gives b depth a ∧ (name, a) ∈ bucketEntries bucket) ∧
    ∃ bucket', Option.Rel (fun m => NameMap.Gives gives m (depth + 1))
        (some ⟨before ++ after⟩) bucket' ∧ bucketEntries bucket' ⊆ bucketEntries bucket := by
  rw [h] at hbucket
  cases hbucket with
  | some hm =>
    obtain ⟨ha, m', hm', hsubset⟩ := hm.remove
    exact ⟨ha, some m', .some hm', hsubset⟩

theorem bucket_puts
    (hbucket : Option.Rel (fun m => NameMap.Gives gives m (depth + 1)) source bucket)
    (h : bucketEntries source = before ++ after) (hnew : name ∉ (before ++ after).map (·.1))
    (ha : gives b depth a) :
    ∃ bucket', Option.Rel (fun m => NameMap.Gives gives m (depth + 1))
        (some ⟨before ++ (name, b) :: after⟩) bucket' ∧
      ∀ e ∈ bucketEntries bucket', e ∈ bucketEntries bucket ∨ e.2 = a := by
  have hentries : NameMap.Gives gives ⟨before ++ after⟩ (depth + 1) ⟨bucketEntries bucket⟩ := by
    rw [← h]
    cases hbucket with
    | none => exact ⟨List.nodup_nil, .nil⟩
    | some hm => exact hm
  obtain ⟨m', hm', hmem⟩ := hentries.insert hnew ha
  exact ⟨some m', .some hm', hmem⟩

end Bucket

namespace TableSource

variable {column : Source} {s s' : TableSource} {depth : Nat} {t : TableChange} {c : ColumnDef}

theorem Takes.gives (h : Takes column s s') (ht : s.Gives (depth + 2) t) :
    (∃ c, column.Gives ColumnDef.record.read depth c ∧ ∃ name, (name, c) ∈ t.columnDefs) ∧
    ∃ t', s'.Gives (depth + 2) t' ∧ ∀ c, t.Shrinks c t' := by
  obtain ⟨hconnection, hcreated, hupdated, hdeleted⟩ := ht
  cases h with
  | created h =>
    obtain ⟨⟨c, hc, hmem⟩, created, hcreated, hsubset⟩ := bucket_takes hcreated h
    refine ⟨⟨c, hc, _, List.mem_append_left _ hmem⟩, { t with created := created },
      ⟨hconnection, hcreated, hupdated, hdeleted⟩, fun c => ⟨rfl, ?_, fun _ he => .inl he⟩⟩
    exact List.append_subset.mpr ⟨List.subset_append_of_subset_left _ hsubset,
      List.subset_append_right _ _⟩
  | updated h =>
    obtain ⟨⟨c, hc, hmem⟩, updated, hupdated, hsubset⟩ := bucket_takes hupdated h
    refine ⟨⟨c, hc, _, List.mem_append_right _ hmem⟩, { t with updated := updated },
      ⟨hconnection, hcreated, hupdated, hdeleted⟩, fun c => ⟨rfl, ?_, fun _ he => .inl he⟩⟩
    exact List.append_subset.mpr ⟨List.subset_append_left _ _,
      List.subset_append_of_subset_right _ hsubset⟩

theorem Puts.gives (h : Puts column s s') (ht : s.Gives (depth + 2) t)
    (hcolumn : column.Gives ColumnDrop.record.read depth c.toDrop) :
    ∃ t', s'.Gives (depth + 2) t' ∧ t.Shrinks c t' := by
  obtain ⟨hconnection, hcreated, hupdated, hdeleted⟩ := ht
  cases h with
  | deleted h hnew =>
    obtain ⟨deleted, hdeleted, hentries⟩ := bucket_puts hdeleted h hnew hcolumn
    exact ⟨{ t with deleted := deleted }, ⟨hconnection, hcreated, hupdated, hdeleted⟩,
      rfl, List.Subset.refl _, hentries⟩

end TableSource

theorem Source.drop_of_object {column : Source} {depth : Nat} {c : ColumnDef}
    (hobject : column.text.head? = some '\x7b')
    (h : column.Gives ColumnDef.record.read depth c) :
    column.Gives ColumnDrop.record.read depth c.toDrop := by
  obtain ⟨body, hbody⟩ := List.head?_eq_some_iff.mp hobject
  have hskip : skipSpace column.text = '\x7b' :: body := by
    rw [hbody]
    rfl
  exact ColumnDrop.partOf.alone hskip h

namespace ChangeSource

variable {s s' : ChangeSource} {depth : Nat} {cs : ChangeSet}

theorem Moves.gives (h : Moves s s') (hs : s.Gives (depth + 4) cs) :
    ∃ c, ∃ tables tables' : NameMap TableChange,
      cs.updated = some tables ∧ s'.Gives (depth + 4) { cs with updated := some tables' } ∧
      (∃ e ∈ tables.entries, ∃ name, (name, c) ∈ e.2.columnDefs) ∧
      List.Forall₂ (fun e e' => e.1 = e'.1 ∧ e.2.Shrinks c e'.2) tables.entries
        tables'.entries := by
  obtain ⟨hcreated, hupdated, hdeleted⟩ := hs
  cases h with
  | @mk column sources between sources' hobject h htakes hputs =>
    rw [h] at hupdated
    cases htables : cs.updated with
    | none =>
      rw [htables] at hupdated
      contradiction
    | some tables =>
      rw [htables] at hupdated
      cases hupdated with
      | some hm =>
        obtain ⟨_, _, htake, e, he, ht⟩ := htakes.exists_mem hm
        obtain ⟨⟨c, hc, hmem⟩, _⟩ := htake.gives ht
        have htake : ∀ {s s' t}, TableSource.Takes column s s' → s.Gives (depth + 2) t →
            ∃ t', s'.Gives (depth + 2) t' ∧ t.Shrinks c t' := by
          intro s s' t hs ht
          obtain ⟨_, t', ht', hshrinks⟩ := hs.gives ht
          exact ⟨t', ht', hshrinks c⟩
        have hput : ∀ {s s' t}, TableSource.Puts column s s' → s.Gives (depth + 2) t →
            ∃ t', s'.Gives (depth + 2) t' ∧ t.Shrinks c t' := by
          intro s s' t hs ht
          exact hs.gives ht (Source.drop_of_object hobject hc)
        obtain ⟨_, hbetween, hshrinks⟩ := htakes.gives hm (TableChange.Shrinks.refl c) htake
        obtain ⟨tables', htables', hshrinks'⟩ :=
          hputs.gives hbetween (TableChange.Shrinks.refl c) hput
        refine ⟨c, tables, tables', rfl, ⟨hcreated, .some htables', hdeleted⟩, ⟨e, he, hmem⟩, ?_⟩
        apply forall₂_trans _ hshrinks hshrinks'
        intro e e' e'' he he'
        exact ⟨he.1.trans he'.1, he.2.trans he'.2⟩

end ChangeSource

theorem TableChange.Shrinks.check {c : ColumnDef} {t t' : TableChange} (h : t.Shrinks c t')
    (hc : Relation.IsComplete c.belongsTo) {name : String}
    (hcheck : t.check name .updated = .ok ()) : t'.check name .updated = .ok () := by
  rw [check_eq_ok_iff, checkDefined_eq_ok_iff, checkDeleted_eq_ok_iff] at hcheck ⊢
  obtain ⟨hconnection, _, hdefined, hdeleted⟩ := hcheck
  refine ⟨?_, rfl, fun e he => hdefined e (h.columnDefs he), ?_⟩
  . rwa [h.connection]
  . intro e he
    obtain he | he := h.deleted e he
    . exact hdeleted e he
    . rw [he]
      exact hc

structure ChangeSet.Relaxes (cs cs' : ChangeSet) : Prop where
  validate : cs.validate = .ok () → cs'.validate = .ok ()
  definedColumns : cs'.definedColumns ⊆ cs.definedColumns

namespace ChangeSet

section Shrinks

variable {cs : ChangeSet} {c : ColumnDef} {tables tables' : NameMap TableChange}

theorem tables_updated (h : cs.updated = some tables) : cs.tables .updated = tables.entries := by
  unfold ChangeSet.tables bucket
  rw [h]
  rfl

theorem validate_of_shrinks (hupdated : cs.updated = some tables)
    (hc : ∃ e ∈ tables.entries, ∃ name, (name, c) ∈ e.2.columnDefs)
    (h : List.Forall₂ (fun e e' => e.1 = e'.1 ∧ e.2.Shrinks c e'.2) tables.entries
      tables'.entries) (hvalid : cs.validate = .ok ()) :
    ({ cs with updated := some tables' } : ChangeSet).validate = .ok () := by
  rw [validate_eq_ok_iff, map_name_allTables] at hvalid ⊢
  obtain ⟨hnames, hcheck⟩ := hvalid
  have htables := tables_updated hupdated
  -- The relation of the definition that has been moved was checked where it came from.
  have hcomplete : Relation.IsComplete c.belongsTo := by
    obtain ⟨e, he, name, hmem⟩ := hc
    rw [← htables] at he
    obtain ⟨_, _, hdefined, _⟩ := TableChange.check_eq_ok_iff.mp (hcheck .updated e he)
    exact (TableChange.checkDefined_eq_ok_iff.mp hdefined _ hmem).2
  constructor
  . rw [htables, map_eq_map_of_forall₂ h fun _ _ he => he.1] at hnames
    exact hnames
  . intro bucket e' he'
    cases bucket with
    | created => exact hcheck .created e' he'
    | updated =>
      obtain ⟨e, he, hname, hshrinks⟩ := exists_of_forall₂_of_mem h he'
      rw [← htables] at he
      rw [← hname]
      exact hshrinks.check hcomplete (hcheck .updated e he)
    | deleted => exact hcheck .deleted e' he'

theorem definedColumns_of_shrinks (hupdated : cs.updated = some tables)
    (h : List.Forall₂ (fun e e' => e.1 = e'.1 ∧ e.2.Shrinks c e'.2) tables.entries
      tables'.entries) :
    ({ cs with updated := some tables' } : ChangeSet).definedColumns ⊆ cs.definedColumns := by
  intro column hcolumn
  unfold definedColumns keptTables at hcolumn ⊢
  rw [List.flatMap_append, List.mem_append] at hcolumn ⊢
  cases hcolumn with
  | inl hcolumn => exact .inl hcolumn
  | inr hcolumn =>
    right
    rw [tables_updated hupdated, List.mem_flatMap]
    obtain ⟨⟨name, t'⟩, he', hcolumn⟩ := List.mem_flatMap.mp hcolumn
    obtain ⟨⟨_, t⟩, he, rfl, hshrinks⟩ := exists_of_forall₂_of_mem h he'
    exact ⟨_, he, List.map_subset _ hshrinks.columnDefs hcolumn⟩

end Shrinks

theorem Relaxes.compile {cs cs' : ChangeSet} (h : cs.Relaxes cs') {registry : Registry}
    {options : Options} (hcompile : ∃ plan, cs.compile registry options = .ok plan) :
    ∃ plan, cs'.compile registry options = .ok plan := by
  rw [compile_eq_ok_iff] at hcompile ⊢
  obtain ⟨hvalid, hdefaults, hmodels⟩ := hcompile
  refine ⟨h.validate hvalid, ?_, fun c hc => hmodels c (h.definedColumns hc)⟩
  cases hdefaults with
  | inl hallowed => exact .inl hallowed
  | inr hnone => exact .inr fun c hc => hnone c (h.definedColumns hc)

end ChangeSet

theorem ChangeSource.relaxes_of_moves {s s' : ChangeSource}
    (h : Relation.ReflTransGen Moves s s') {depth : Nat} {cs : ChangeSet}
    (hs : s.Gives (depth + 4) cs) : ∃ cs', s'.Gives (depth + 4) cs' ∧ cs.Relaxes cs' := by
  induction h with
  | refl => exact ⟨cs, hs, id, List.Subset.refl _⟩
  | tail _ hmoves ih =>
    obtain ⟨cs', hcs', hrelaxes⟩ := ih
    obtain ⟨c, tables, tables', hupdated, hgives, hc, hshrinks⟩ := hmoves.gives hcs'
    refine ⟨_, hgives, ?_, ?_⟩
    . exact ChangeSet.validate_of_shrinks hupdated hc hshrinks ∘ hrelaxes.validate
    . have hnext := ChangeSet.definedColumns_of_shrinks hupdated hshrinks
      exact List.Subset.trans hnext hrelaxes.definedColumns

/--
An object that is read as the definition of a column is read as the deletion of one, with the same
relation. So any document that is read has its columns as texts, and if such objects among them are
moved from the defined columns of updated tables to the deleted ones, the document is still read,
and what was accepted of it still is.
-/
theorem ChangeSet.accepts_movedColumns :
    (∀ {document : String} {c : ColumnDef},
      (skipSpace document.toList).head? = some '\x7b' →
      Reader.document ColumnDef.record.read document = .ok c →
      Reader.document ColumnDrop.record.read document = .ok { belongsTo := c.belongsTo }) ∧
    ∀ {document : String} {cs : ChangeSet}, Reader.document record.read document = .ok cs →
      (∃ s : ChangeSource, DocumentText s.Text document) ∧
      ∀ {s s' : ChangeSource} {document' : String},
        DocumentText s.Text document → DocumentText s'.Text document' →
        Relation.ReflTransGen ChangeSource.Moves s s' →
        ∃ cs', Reader.document record.read document' = .ok cs' ∧
          (cs.validate = .ok () → cs'.validate = .ok ()) ∧
          ∀ (registry : Registry) (options : Options),
            (∃ plan, cs.compile registry options = .ok plan) →
            ∃ plan, cs'.compile registry options = .ok plan := by
  constructor
  . intro document c hobject hread
    obtain ⟨body, hbody⟩ := List.head?_eq_some_iff.mp hobject
    exact ColumnDrop.partOf.document hbody hread
  . intro document cs hread
    have hlocal := Record.read_local fields_local
    refine ⟨ChangeSource.covered.document hlocal (Record.agrees fields_agree) hread, ?_⟩
    intro s s' document' hdocument hdocument' hmoves
    rw [s.settles.document hlocal hdocument] at hread
    obtain ⟨cs', hcs', hrelaxes⟩ := ChangeSource.relaxes_of_moves hmoves hread
    exact ⟨cs', (s'.settles.document hlocal hdocument').mpr hcs', hrelaxes.validate,
      fun _ _ => hrelaxes.compile⟩

theorem valueSyntax_columnText : ValueSyntax columnText := by
  have hrelation : ValueSyntax relationText := by
    refine .array ?_ ⟨_, inside_itemTexts _ _, rfl⟩
    simp only [List.forall_mem_cons, List.not_mem_nil, false_imp_iff, implies_true, and_true]
    exact ⟨.string (stringText_encode _).stringSyntax, .string (stringText_encode _).stringSyntax⟩
  have hmembers : MembersText [("belongsTo", relationText), ("type", Quoted.encode "integer"),
      ("typeArgs", nullText)] columnText := by
    refine ⟨_, _, ?_, inside_itemTexts _ _, rfl⟩
    apply List.Forall₂.cons (memberItem_encode _ _)
    apply List.Forall₂.cons ⟨_, stringText_type, [], [], rfl, rfl, rfl⟩
    apply List.Forall₂.cons (memberItem_encode _ _)
    exact .nil
  apply NameMap.valueSyntax_of_membersText hmembers
  simp only [List.forall_mem_cons, List.not_mem_nil, false_imp_iff, implies_true, and_true]
  exact ⟨hrelation, .string (stringText_encode _).stringSyntax, .null⟩

def authorSource : Source := ⟨columnText, valueSyntax_columnText⟩

def mainSource : Source := ⟨Quoted.encode "main", .string (stringText_encode "main").stringSyntax⟩

def postsSource : TableSource where
  connection := mainSource
  created := some ⟨[("author", authorSource)]⟩

def movedPostsSource : TableSource where
  connection := mainSource
  created := some ⟨[]⟩
  deleted := some ⟨[("writer", authorSource)]⟩

def movedTableText : List Char :=
  '[' :: itemTexts ']' [Quoted.encode "main", '\x7b' :: itemTexts '\x7d' [], nullText,
    mapText "writer" columnText]

theorem tableText_spells_source (depth : Nat) : postsSource.Text (depth + 2) tableText := by
  right
  refine ⟨_, .cons (.inl rfl) (.cons ?_ (.cut ?_)), _, inside_itemTexts _ _, rfl⟩
  . exact .inl ⟨_, rfl, mapText_spells rfl _⟩
  . simp [postsSource, Part.optional]

theorem movedTableText_spells_source (depth : Nat) :
    movedPostsSource.Text (depth + 2) movedTableText := by
  right
  refine ⟨_, .cons (.inl rfl) (.cons ?_ (.cons (.inr ⟨rfl, rfl⟩) (.cons ?_ (.cut ?_)))), _,
    inside_itemTexts _ _, rfl⟩
  . exact .inl ⟨_, rfl, [], .nil, [], _, .nil, inside_itemTexts _ _, rfl⟩
  . exact .inl ⟨_, rfl, mapText_spells rfl _⟩
  . simp

def changesOf (t : TableSource) : ChangeSource := { updated := some ⟨[("posts", t)]⟩ }

def changesDocument (table : List Char) : String :=
  String.ofList (mapText "updated" (mapText "posts" table))

theorem changesDocument_spells {t : TableSource} {text : List Char}
    (h : t.Text (maxDepth - 2) text) :
    DocumentText (changesOf t).Text (changesDocument text) := by
  have hmembers : RecordMembers ((changesOf t).parts (maxDepth - 1))
      [("updated", mapText "posts" text)] := by
    constructor
    . refine ⟨(((changesOf t).parts _).drop 1).take 1, ((changesOf t).parts _).take 1 ++
        ((changesOf t).parts _).drop 2, List.Perm.swap _ _ _, ?_, ?_⟩
      . simp [ChangeSource.parts, changesOf, Part.optional]
      . exact .cons ⟨rfl, .inl ⟨_, rfl, mapText_spells h "posts"⟩⟩ .nil
    . simp [ChangeSource.parts, Part.optional]
  have htext : MembersText [("updated", mapText "posts" text)]
      (mapText "updated" (mapText "posts" text)) :=
    ⟨_, _, .cons (memberItem_encode _ _) .nil, inside_itemTexts _ _, rfl⟩
  refine ⟨[], _, [], rfl, rfl, .inl ⟨_, hmembers, htext⟩, ?_⟩
  rw [List.append_nil, List.nil_append]
  rfl

theorem postsSource_moves : (changesOf postsSource).Moves (changesOf movedPostsSource) := by
  have htakes : postsSource.Takes authorSource { postsSource with created := some ⟨[]⟩ } :=
    @TableSource.Takes.created authorSource postsSource "author" [] [] rfl
  have hputs : TableSource.Puts authorSource { postsSource with created := some ⟨[]⟩ }
      movedPostsSource :=
    @TableSource.Puts.deleted authorSource { postsSource with created := some ⟨[]⟩ } "writer" [] []
      rfl (by simp)
  exact .mk rfl rfl (@NameMap.Edits.mk _ _ "posts" _ _ [] [] htakes)
    (@NameMap.Edits.mk _ _ "posts" _ _ [] [] hputs)

set_option maxRecDepth 4000 in
theorem authorColumn_accepts_movedColumns :
    Reader.document ColumnDrop.record.read (String.ofList columnText) =
      .ok { belongsTo := some authorRelation } ∧
    ∃ cs, Reader.document ChangeSet.record.read (changesDocument movedTableText) = .ok cs ∧
      cs.validate = .ok () := by
  obtain ⟨hdrop, hmoves⟩ := ChangeSet.accepts_movedColumns
  have hcolumn : Reader.document ColumnDef.record.read (String.ofList columnText) =
      .ok authorColumn := rfl
  have hread : Reader.document ChangeSet.record.read (changesDocument tableText) =
      .ok postsChanges := rfl
  constructor
  . exact hdrop rfl hcolumn
  . obtain ⟨_, hmoved⟩ := hmoves hread
    obtain ⟨cs, hcs, hvalid, _⟩ :=
      hmoved (changesDocument_spells (tableText_spells_source _))
        (changesDocument_spells (movedTableText_spells_source _)) (.single postsSource_moves)
    exact ⟨cs, hcs, hvalid rfl⟩

end SchemaMigration
