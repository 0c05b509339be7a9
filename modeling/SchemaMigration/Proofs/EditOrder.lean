import SchemaMigration.ChangeSet.Edit
import SchemaMigration.Script.Basic
import Mathlib.Data.List.Basic
import Mathlib.Data.List.Induction

/-!
This module contains how far the order of edits matters. Edits of different parts can change places,
whatever comes between them: each bucket is filled by its own edits, and of the settings of a column
only the last one of each kind is left. What is built either way compiles to the same plan.
-/

namespace SchemaMigration

/--
A part of something that is edited: the edits that do not concern the part leave it as it is, and
what the others make of it depends on nothing but the part.
-/
structure EditedAlone {σ ε τ : Type} (edit : σ → ε → σ) (part : σ → τ) (concerns : ε → Bool) :
    Prop where
  other : ∀ s e, concerns e = false → part (edit s e) = part s
  own : ∀ s s' e, part s = part s' → part (edit s e) = part (edit s' e)

namespace EditedAlone

variable {σ ε τ : Type} {edit : σ → ε → σ} {part : σ → τ} {concerns : ε → Bool}

-- The start may differ in the other parts, as the edits of these are left out on one side only.
theorem foldl_filter (h : EditedAlone edit part concerns) (es : List ε) {s s' : σ}
    (hstart : part s = part s') :
    part (es.foldl edit s) = part ((es.filter concerns).foldl edit s') := by
  induction es generalizing s s' with
  | nil => exact hstart
  | cons e es ih =>
    rw [List.foldl_cons, List.filter_cons]
    split
    . exact ih (h.own s s' e hstart)
    . next hconcerns =>
      apply ih
      rw [h.other s e (by simpa using hconcerns)]
      exact hstart

theorem foldl_eq (h : EditedAlone edit part concerns) {es es' : List ε}
    (hes : es.filter concerns = es'.filter concerns) (s : σ) :
    part (es.foldl edit s) = part (es'.foldl edit s) := by
  rw [h.foldl_filter es rfl, hes]
  exact (h.foldl_filter es' rfl).symm

end EditedAlone

def SameByBucket {ε : Type} (bucket : ε → Bucket) (es es' : List ε) : Prop :=
  ∀ b, es.filter (bucket · = b) = es'.filter (bucket · = b)

theorem ChangeSet.bucket_editedAlone (b : Bucket) :
    EditedAlone ChangeSet.edit (·.bucket b) (·.bucket = b) where
  other := by
    intro cs e hother
    have hne : e.bucket ≠ b := by simpa using hother
    unfold edit
    cases hbucket : e.bucket <;> cases b <;> simp_all [bucket]
  own := by
    intro cs cs' e hpart
    unfold edit
    cases e.bucket <;> cases b <;> simp_all [bucket]

theorem ChangeSet.eq_of_buckets {cs cs' : ChangeSet} (h : ∀ b, cs.bucket b = cs'.bucket b) :
    cs = cs' := by
  cases cs
  cases cs'
  congr
  . exact h .created
  . exact h .updated
  . exact h .deleted

theorem ChangeSet.ofEdits_eq {es es' : List ChangeSetEdit}
    (h : SameByBucket ChangeSetEdit.bucket es es') :
    ChangeSet.ofEdits es = ChangeSet.ofEdits es' := by
  apply eq_of_buckets
  intro b
  exact (bucket_editedAlone b).foldl_eq (h b) .empty

def TableEdit.bucket : TableEdit → Bucket
  | .created .. => .created
  | .updated .. => .updated
  | .deleted .. => .deleted

namespace TableChange

theorem connection_foldl_edit (es : List TableEdit) (t : TableChange) :
    (es.foldl edit t).connection = t.connection := by
  induction es generalizing t with
  | nil => rfl
  | cons e es ih =>
    rw [List.foldl_cons, ih]
    cases e <;> rfl

theorem created_editedAlone : EditedAlone edit created (·.bucket = .created) where
  other t e hother := by cases e <;> simp_all [edit, TableEdit.bucket]
  own t t' e hpart := by cases e <;> simp_all [edit]

theorem updated_editedAlone : EditedAlone edit updated (·.bucket = .updated) where
  other t e hother := by cases e <;> simp_all [edit, TableEdit.bucket]
  own t t' e hpart := by cases e <;> simp_all [edit]

theorem deleted_editedAlone : EditedAlone edit deleted (·.bucket = .deleted) where
  other t e hother := by cases e <;> simp_all [edit, TableEdit.bucket]
  own t t' e hpart := by cases e <;> simp_all [edit]

theorem ofEdits_eq (connection : String) {es es' : List TableEdit}
    (h : SameByBucket TableEdit.bucket es es') :
    TableChange.ofEdits connection es = TableChange.ofEdits connection es' := by
  have hconnection : (ofEdits connection es).connection = (ofEdits connection es').connection := by
    unfold ofEdits
    rw [connection_foldl_edit, connection_foldl_edit]
  have hcreated : (ofEdits connection es).created = (ofEdits connection es').created :=
    created_editedAlone.foldl_eq (h .created) _
  have hupdated : (ofEdits connection es).updated = (ofEdits connection es').updated :=
    updated_editedAlone.foldl_eq (h .updated) _
  have hdeleted : (ofEdits connection es).deleted = (ofEdits connection es').deleted :=
    deleted_editedAlone.foldl_eq (h .deleted) _
  cases hes : ofEdits connection es
  cases hes' : ofEdits connection es'
  simp_all

end TableChange

inductive ColumnPart where
  | typeArgs
  | index
  | unique
  | literalDefault
  | rawDefault
  | primary
  | unsigned
  | nullable
  | useCurrent
  | belongsTo
  deriving DecidableEq

namespace ColumnPart

def modifiers : List ColumnPart :=
  [.index, .unique, .literalDefault, .rawDefault, .primary, .unsigned, .nullable, .useCurrent]

end ColumnPart

namespace ColumnEdit

def part : ColumnEdit → ColumnPart
  | .typeArg _ => .typeArgs
  | .index _ => .index
  | .unique _ => .unique
  | .literalDefault _ => .literalDefault
  | .rawDefault _ => .rawDefault
  | .primary _ => .primary
  | .unsigned _ => .unsigned
  | .nullable _ => .nullable
  | .useCurrent => .useCurrent
  | .belongsTo _ => .belongsTo

def modifier? : ColumnEdit → Option Modifier
  | .index value => some ⟨"index", .literal value⟩
  | .unique value => some ⟨"unique", .literal value⟩
  | .literalDefault value => some ⟨"default", .literal value⟩
  | .rawDefault expression => some ⟨"default", .raw expression⟩
  | .primary value => some ⟨"primary", .literal value⟩
  | .unsigned value => some ⟨"unsigned", .literal value⟩
  | .nullable value => some ⟨"nullable", .literal value⟩
  | .useCurrent => some ⟨"useCurrent", .none⟩
  | .typeArg _ => none
  | .belongsTo _ => none

def last? (part : ColumnPart) (es : List ColumnEdit) : Option ColumnEdit :=
  (es.filter (·.part = part)).getLast?

structure SameByPart (es es' : List ColumnEdit) : Prop where
  typeArgs : es.filter (·.part = .typeArgs) = es'.filter (·.part = .typeArgs)
  last : ∀ part, part ≠ .typeArgs → last? part es = last? part es'

theorem last?_append (part : ColumnPart) (es : List ColumnEdit) (e : ColumnEdit) :
    last? part (es ++ [e]) = if e.part = part then some e else last? part es := by
  unfold last?
  rw [List.filter_append]
  by_cases h : e.part = part <;> simp [h]

end ColumnEdit

namespace ColumnDef

open ColumnEdit

def setting? (c : ColumnDef) : ColumnPart → Option ColumnEdit
  | .typeArgs => none
  | .index => c.index.map .index
  | .unique => c.unique.map .unique
  | .literalDefault => c.literalDefault.map .literalDefault
  | .rawDefault => c.rawDefault.map .rawDefault
  | .primary => c.primary.map .primary
  | .unsigned => c.unsigned.map .unsigned
  | .nullable => c.nullable.map .nullable
  | .useCurrent => c.useCurrent.map fun _ => .useCurrent
  | .belongsTo => c.belongsTo.map .belongsTo

theorem setting?_edit {part : ColumnPart} (hpart : part ≠ .typeArgs) (c : ColumnDef)
    (e : ColumnEdit) :
    (c.edit e).setting? part = if e.part = part then some e else c.setting? part := by
  cases e <;> cases part <;> first | rfl | contradiction

-- By induction from the end, where the last edit of a part is found.
theorem setting?_ofEdits {part : ColumnPart} (hpart : part ≠ .typeArgs) (type : String)
    (es : List ColumnEdit) : (ofEdits type es).setting? part = last? part es := by
  unfold ofEdits
  induction es using List.reverseRecOn with
  | nil => cases part <;> rfl
  | append_singleton es e ih =>
    rw [List.foldl_append, List.foldl_cons, List.foldl_nil]
    rw [setting?_edit hpart, ih, last?_append]

theorem typeArgs_editedAlone : EditedAlone edit typeArgs (·.part = .typeArgs) where
  other c e hother := by cases e <;> simp_all [edit, part]
  own c c' e hpart := by cases e <;> simp_all [edit]

theorem type_ofEdits (type : String) (es : List ColumnEdit) : (ofEdits type es).type = type := by
  unfold ofEdits
  induction es using List.reverseRecOn with
  | nil => rfl
  | append_singleton es e ih =>
    rw [List.foldl_append, List.foldl_cons, List.foldl_nil]
    cases e <;> exact ih

-- The setting of `useCurrent` does not tell its value, which is always the same.
theorem useCurrent_ofEdits (type : String) (es : List ColumnEdit) :
    (ofEdits type es).useCurrent =
      ((ofEdits type es).setting? .useCurrent).map fun _ => .bool true := by
  unfold ofEdits
  induction es using List.reverseRecOn with
  | nil => rfl
  | append_singleton es e ih =>
    rw [List.foldl_append, List.foldl_cons, List.foldl_nil]
    cases e <;> first | exact ih | rfl

theorem eq_of_settings {c c' : ColumnDef} (htype : c.type = c'.type)
    (htypeArgs : c.typeArgs = c'.typeArgs) (huseCurrent : c.useCurrent = c'.useCurrent)
    (h : ∀ part, part ≠ .typeArgs → c.setting? part = c'.setting? part) : c = c' := by
  have hmap : ∀ {α : Type} {put : α → ColumnEdit}, Function.Injective put →
      ∀ {a b : Option α}, a.map put = b.map put → a = b :=
    fun hput => @(Option.map_injective hput)
  cases c
  cases c'
  rw [mk.injEq]
  refine ⟨htype, htypeArgs, ?_, ?_, ?_, ?_, ?_, ?_, ?_, huseCurrent, ?_⟩
  . exact hmap (fun _ _ => ColumnEdit.index.inj) (h .index (by decide))
  . exact hmap (fun _ _ => ColumnEdit.unique.inj) (h .unique (by decide))
  . exact hmap (fun _ _ => ColumnEdit.literalDefault.inj) (h .literalDefault (by decide))
  . exact hmap (fun _ _ => ColumnEdit.rawDefault.inj) (h .rawDefault (by decide))
  . exact hmap (fun _ _ => ColumnEdit.primary.inj) (h .primary (by decide))
  . exact hmap (fun _ _ => ColumnEdit.unsigned.inj) (h .unsigned (by decide))
  . exact hmap (fun _ _ => ColumnEdit.nullable.inj) (h .nullable (by decide))
  . exact hmap (fun _ _ => ColumnEdit.belongsTo.inj) (h .belongsTo (by decide))

theorem ofEdits_eq (type : String) {es es' : List ColumnEdit} (h : SameByPart es es') :
    ofEdits type es = ofEdits type es' := by
  have hsettings : ∀ part, part ≠ .typeArgs →
      (ofEdits type es).setting? part = (ofEdits type es').setting? part := by
    intro part hpart
    rw [setting?_ofEdits hpart, setting?_ofEdits hpart]
    exact h.last part hpart
  apply eq_of_settings _ _ _ hsettings
  . rw [type_ofEdits, type_ofEdits]
  . exact typeArgs_editedAlone.foldl_eq h.typeArgs _
  . rw [useCurrent_ofEdits, useCurrent_ofEdits, hsettings .useCurrent (by decide)]

theorem modifiers_eq (c : ColumnDef) :
    c.modifiers = ColumnPart.modifiers.filterMap fun part => (c.setting? part).bind modifier? := by
  have hcons : ∀ {α β γ : Type} {f : α → Option γ} {g : β → Option γ} {a : α} {b : β}
      {as : List α} {bs : List β}, f a = g b → as.filterMap f = bs.filterMap g →
      (a :: as).filterMap f = (b :: bs).filterMap g := by
    intro α β γ f g a b as bs hhead htail
    rw [List.filterMap_cons, List.filterMap_cons, hhead, htail]
  obtain ⟨_, _, index, unique, literal, raw, primary, unsigned, nullable, useCurrent, _⟩ := c
  refine hcons ?_ (hcons ?_ (hcons ?_ (hcons ?_ (hcons ?_ (hcons ?_ (hcons ?_ (hcons ?_ rfl)))))))
  . cases index <;> rfl
  . cases unique <;> rfl
  . cases literal <;> rfl
  . cases raw <;> rfl
  . cases primary <;> rfl
  . cases unsigned <;> rfl
  . cases nullable <;> rfl
  . cases useCurrent <;> rfl

theorem modifiers_ofEdits (type : String) (es : List ColumnEdit) :
    (ofEdits type es).modifiers =
      ColumnPart.modifiers.filterMap fun part => (last? part es).bind modifier? := by
  have hparts : ∀ part ∈ ColumnPart.modifiers, part ≠ .typeArgs := by decide
  rw [modifiers_eq]
  apply List.filterMap_congr
  intro part hpart
  rw [setting?_ofEdits (hparts part hpart)]

end ColumnDef

/--
What is built does not depend on the order in which edits of different parts come: neither change
sets nor tables nor columns do, and so the plans and the scripts of change sets do not either. The
modifiers of a column come in their fixed order, each from the last edit of its part.
-/
theorem edits_agree :
    (∀ es es' : List ChangeSetEdit, SameByBucket ChangeSetEdit.bucket es es' →
      ChangeSet.ofEdits es = ChangeSet.ofEdits es' ∧
      (∀ lookup options,
        (ChangeSet.ofEdits es).compileWith lookup options =
          (ChangeSet.ofEdits es').compileWith lookup options) ∧
      ∀ (d : Dialect) lookup options name other,
        Script.generateWith d lookup options name (ChangeSet.ofEdits es) other =
          Script.generateWith d lookup options name (ChangeSet.ofEdits es') other ∧
        Script.generateWith d lookup options name other (ChangeSet.ofEdits es) =
          Script.generateWith d lookup options name other (ChangeSet.ofEdits es')) ∧
    (∀ connection, ∀ es es' : List TableEdit, SameByBucket TableEdit.bucket es es' →
      TableChange.ofEdits connection es = TableChange.ofEdits connection es') ∧
    ∀ type, ∀ es es' : List ColumnEdit, ColumnEdit.SameByPart es es' →
      ColumnDef.ofEdits type es = ColumnDef.ofEdits type es' ∧
      ∀ declared change,
        (ColumnDef.ofEdits type es).call declared change =
          (ColumnDef.ofEdits type es').call declared change ∧
        ((ColumnDef.ofEdits type es).call declared change).modifiers =
          ColumnPart.modifiers.filterMap fun part =>
            (ColumnEdit.last? part es).bind ColumnEdit.modifier? := by
  refine ⟨?_, ?_, ?_⟩
  . intro es es' h
    rw [ChangeSet.ofEdits_eq h]
    exact ⟨rfl, fun _ _ => rfl, fun _ _ _ _ _ => ⟨rfl, rfl⟩⟩
  . intro connection es es' h
    exact TableChange.ofEdits_eq connection h
  . intro type es es' h
    rw [← ColumnDef.ofEdits_eq type h]
    exact ⟨rfl, fun _ _ => ⟨rfl, ColumnDef.modifiers_ofEdits type es⟩⟩

-- The users are put twice, and stay in front of the posts.
def blogEdits : List ChangeSetEdit := [
  ⟨.created, "users", { connection := "main" }⟩,
  ⟨.deleted, "logs", { connection := "main" }⟩,
  ⟨.created, "posts", { connection := "main" }⟩,
  ⟨.created, "users", { connection := "blog" }⟩]

def blogEditsByBucket : List ChangeSetEdit := [
  ⟨.deleted, "logs", { connection := "main" }⟩,
  ⟨.created, "users", { connection := "main" }⟩,
  ⟨.created, "posts", { connection := "main" }⟩,
  ⟨.created, "users", { connection := "blog" }⟩]

def postsEdits : List TableEdit := [
  .deleted "draft" {},
  .created "slug" { type := "string" },
  .updated "title" { type := "text" },
  .created "slug" { type := "text" }]

def postsEditsByBucket : List TableEdit := [
  .created "slug" { type := "string" },
  .created "slug" { type := "text" },
  .updated "title" { type := "text" },
  .deleted "draft" {}]

def priceEdits : List ColumnEdit := [
  .nullable (.bool true),
  .typeArg (.number (.integer 8)),
  .index (.bool true),
  .nullable (.bool false),
  .typeArg (.number (.integer 2))]

def priceEditsByPart : List ColumnEdit := [
  .typeArg (.number (.integer 8)),
  .typeArg (.number (.integer 2)),
  .nullable (.bool false),
  .index (.bool true)]

theorem blogEdits_agree :
    SameByBucket ChangeSetEdit.bucket blogEdits blogEditsByBucket ∧
    SameByBucket TableEdit.bucket postsEdits postsEditsByBucket ∧
    ColumnEdit.SameByPart priceEdits priceEditsByPart ∧
    ChangeSet.ofEdits blogEdits = ChangeSet.ofEdits blogEditsByBucket ∧
    TableChange.ofEdits "main" postsEdits = TableChange.ofEdits "main" postsEditsByBucket ∧
    ColumnDef.ofEdits "decimal" priceEdits = ColumnDef.ofEdits "decimal" priceEditsByPart ∧
    ((ColumnDef.ofEdits "decimal" priceEdits).call "price" false).modifiers =
      [⟨"index", .literal (.bool true)⟩, ⟨"nullable", .literal (.bool false)⟩] := by
  have hblog : SameByBucket ChangeSetEdit.bucket blogEdits blogEditsByBucket := by
    intro b
    cases b <;> rfl
  have hposts : SameByBucket TableEdit.bucket postsEdits postsEditsByBucket := by
    intro b
    cases b <;> rfl
  have hprice : ColumnEdit.SameByPart priceEdits priceEditsByPart := by
    constructor
    . rfl
    . intro part _
      cases part <;> rfl
  obtain ⟨changes, tables, columns⟩ := edits_agree
  obtain ⟨hcolumn, hcall⟩ := columns "decimal" _ _ hprice
  refine ⟨hblog, hposts, hprice, (changes _ _ hblog).1, tables "main" _ _ hposts, hcolumn, ?_⟩
  rw [(hcall "price" false).2]
  rfl

end SchemaMigration
