import SchemaMigration.Proofs.Json.TakenApart

/-!
This module contains change sets as documents have them, where the columns are kept as texts. What
is read from a document is settled by what is read from the texts of its columns, one by one.
-/

namespace SchemaMigration

open Json

structure TableSource where
  connection : Source
  created : Option (NameMap Source) := none
  updated : Option (NameMap Source) := none
  deleted : Option (NameMap Source) := none

namespace TableSource

def parts (s : TableSource) (depth : Nat) : List Part := [
  .mandatory "connection" (s.connection.Text depth),
  .optional "created" (fun m => m.Text Source.Text depth) s.created,
  .optional "updated" (fun m => m.Text Source.Text depth) s.updated,
  .optional "deleted" (fun m => m.Text Source.Text depth) s.deleted]

def Text (s : TableSource) : Nat → List Char → Prop := RecordText s.parts

inductive Gives (s : TableSource) : Nat → TableChange → Prop where
  | mk {depth : Nat} {t : TableChange}
      (connection : s.connection.Gives Reader.string depth t.connection)
      (created : Option.Rel (fun m => m.Gives (Source.Gives ColumnDef.record.read) depth)
        s.created t.created)
      (updated : Option.Rel (fun m => m.Gives (Source.Gives ColumnDef.record.read) depth)
        s.updated t.updated)
      (deleted : Option.Rel (fun m => m.Gives (Source.Gives ColumnDrop.record.read) depth)
        s.deleted t.deleted) : Gives s (depth + 1) t

end TableSource

structure ChangeSource where
  created : Option (NameMap Source) := none
  updated : Option (NameMap TableSource) := none
  deleted : Option (NameMap Source) := none

namespace ChangeSource

def parts (s : ChangeSource) (depth : Nat) : List Part := [
  .optional "created" (fun m => m.Text Source.Text depth) s.created,
  .optional "updated" (fun m => m.Text TableSource.Text depth) s.updated,
  .optional "deleted" (fun m => m.Text Source.Text depth) s.deleted]

def Text (s : ChangeSource) : Nat → List Char → Prop := RecordText s.parts

inductive Gives (s : ChangeSource) : Nat → ChangeSet → Prop where
  | mk {depth : Nat} {cs : ChangeSet}
      (created : Option.Rel (fun m => m.Gives (Source.Gives TableChange.record.read) depth)
        s.created cs.created)
      (updated : Option.Rel (fun m => m.Gives TableSource.Gives depth) s.updated cs.updated)
      (deleted : Option.Rel (fun m => m.Gives (Source.Gives TableChange.record.read) depth)
        s.deleted cs.deleted) : Gives s (depth + 1) cs

end ChangeSource

theorem TableSource.settles (s : TableSource) : TableChange.record.read.Settles s.Text s.Gives := by
  have hcolumns := Record.read_local ColumnDef.fields_local
  have hdrops := Record.read_local ColumnDrop.fields_local
  apply Record.settles TableChange.fields_local (by decide) fun _ => rfl
  . intro depth
    simp only [parts, List.forall_mem_cons]
    exact ⟨Part.valid_mandatory (Source.settles Reader.string s.connection),
      Part.valid_bucket hcolumns (Source.settles _),
      Part.valid_bucket hcolumns (Source.settles _),
      Part.valid_bucket hdrops (Source.settles _), by simp⟩
  . intro depth h
    simp only [parts, TableChange.record, List.forall₂_cons] at h
    obtain ⟨hconnection, hcreated, hupdated, hdeleted, _⟩ := h
    obtain ⟨connection, hconnection⟩ := hconnection.mandatory (Source.settles _ s.connection)
    obtain ⟨created, hcreated⟩ := hcreated.bucket hcolumns (Source.settles _)
    obtain ⟨updated, hupdated⟩ := hupdated.bucket hcolumns (Source.settles _)
    obtain ⟨deleted, hdeleted⟩ := hdeleted.bucket hdrops (Source.settles _)
    exact ⟨⟨connection, created, updated, deleted⟩, ⟨hconnection, hcreated, hupdated, hdeleted⟩⟩
  . rintro depth t ⟨hconnection, hcreated, hupdated, hdeleted⟩
    refine ⟨[
      ⟨_, fun a => { a with connection := t.connection }⟩,
      ⟨_, fun a => { a with created := t.created }⟩,
      ⟨_, fun a => { a with updated := t.updated }⟩,
      ⟨_, fun a => { a with deleted := t.deleted }⟩], by decide, rfl, ?_, by simp, rfl⟩
    apply List.Forall₂.cons
      (Slot.Fits.settled_mandatory Reader.string_local (Source.settles _ _) hconnection)
    apply List.Forall₂.cons (Slot.Fits.bucket hcolumns (Source.settles _) hcreated rfl)
    apply List.Forall₂.cons (Slot.Fits.bucket hcolumns (Source.settles _) hupdated rfl)
    apply List.Forall₂.cons (Slot.Fits.bucket hdrops (Source.settles _) hdeleted rfl)
    exact .nil

theorem ChangeSource.settles (s : ChangeSource) :
    ChangeSet.record.read.Settles s.Text s.Gives := by
  have htables := Record.read_local TableChange.fields_local
  apply Record.settles ChangeSet.fields_local (by decide) fun _ => rfl
  . intro depth
    simp only [parts, List.forall_mem_cons]
    exact ⟨Part.valid_bucket htables (Source.settles _),
      Part.valid_bucket htables TableSource.settles,
      Part.valid_bucket htables (Source.settles _), by simp⟩
  . intro depth h
    simp only [parts, ChangeSet.record, List.forall₂_cons] at h
    obtain ⟨hcreated, hupdated, hdeleted, _⟩ := h
    obtain ⟨created, hcreated⟩ := hcreated.bucket htables (Source.settles _)
    obtain ⟨updated, hupdated⟩ := hupdated.bucket htables TableSource.settles
    obtain ⟨deleted, hdeleted⟩ := hdeleted.bucket htables (Source.settles _)
    exact ⟨⟨created, updated, deleted⟩, ⟨hcreated, hupdated, hdeleted⟩⟩
  . rintro depth cs ⟨hcreated, hupdated, hdeleted⟩
    refine ⟨[
      ⟨_, fun a => { a with created := cs.created }⟩,
      ⟨_, fun a => { a with updated := cs.updated }⟩,
      ⟨_, fun a => { a with deleted := cs.deleted }⟩], by decide, rfl, ?_, by simp, rfl⟩
    apply List.Forall₂.cons (Slot.Fits.bucket htables (Source.settles _) hcreated rfl)
    apply List.Forall₂.cons (Slot.Fits.bucket htables TableSource.settles hupdated rfl)
    apply List.Forall₂.cons (Slot.Fits.bucket htables (Source.settles _) hdeleted rfl)
    exact .nil

theorem TableSource.covered : TableChange.record.read.Covered Text where
  exists_source := by
    have hcolumns := Record.read_local ColumnDef.fields_local
    have hdrops := Record.read_local ColumnDrop.fields_local
    intro depth inner t hinner hread
    have hfields : ∀ depth, List.Forall₂ (Field.Covered depth) TableChange.record.fields [
        fun p => ∃ s : Source, p = .mandatory "connection" (s.Text depth),
        fun p => ∃ s, p = .optional "created" (fun m => NameMap.Text Source.Text m depth) s,
        fun p => ∃ s, p = .optional "updated" (fun m => NameMap.Text Source.Text m depth) s,
        fun p => ∃ s, p = .optional "deleted" (fun m => NameMap.Text Source.Text m depth) s] := by
      intro depth
      apply List.Forall₂.cons (Field.Covered.mandatory (Source.covered _))
      apply List.Forall₂.cons (Field.Covered.bucket hcolumns (Source.covered _))
      apply List.Forall₂.cons (Field.Covered.bucket hcolumns (Source.covered _))
      apply List.Forall₂.cons (Field.Covered.bucket hdrops (Source.covered _))
      exact .nil
    obtain ⟨inner, parts, hparts, htext⟩ :=
      Record.exists_recordText TableChange.fields_local (by decide) hfields hinner hread
    simp only [List.forall₂_cons_left_iff, List.forall₂_nil_left_iff] at hparts
    obtain ⟨_, _, ⟨connection, rfl⟩, ⟨_, _, ⟨created, rfl⟩, ⟨_, _, ⟨updated, rfl⟩, ⟨_, _,
      ⟨deleted, rfl⟩, rfl, rfl⟩, rfl⟩, rfl⟩, rfl⟩ := hparts
    exact ⟨⟨connection, created, updated, deleted⟩, htext rfl⟩

theorem ChangeSource.covered : ChangeSet.record.read.Covered Text where
  exists_source := by
    have htables := Record.read_local TableChange.fields_local
    intro depth inner cs hinner hread
    have hfields : ∀ depth, List.Forall₂ (Field.Covered depth) ChangeSet.record.fields [
        fun p => ∃ s, p = .optional "created" (fun m => NameMap.Text Source.Text m depth) s,
        fun p => ∃ s, p = .optional "updated" (fun m => NameMap.Text TableSource.Text m depth) s,
        fun p => ∃ s, p = .optional "deleted" (fun m => NameMap.Text Source.Text m depth) s] := by
      intro depth
      apply List.Forall₂.cons (Field.Covered.bucket htables (Source.covered _))
      apply List.Forall₂.cons (Field.Covered.bucket htables TableSource.covered)
      apply List.Forall₂.cons (Field.Covered.bucket htables (Source.covered _))
      exact .nil
    obtain ⟨inner, parts, hparts, htext⟩ :=
      Record.exists_recordText ChangeSet.fields_local (by decide) hfields hinner hread
    simp only [List.forall₂_cons_left_iff, List.forall₂_nil_left_iff] at hparts
    obtain ⟨_, _, ⟨created, rfl⟩, ⟨_, _, ⟨updated, rfl⟩, ⟨_, _, ⟨deleted, rfl⟩, rfl, rfl⟩, rfl⟩,
      rfl⟩ := hparts
    exact ⟨⟨created, updated, deleted⟩, htext rfl⟩

end SchemaMigration
