import SchemaMigration.Proofs.MapReading

/-!
This module contains documents that are taken apart into texts: a map or a record is kept with the
texts of its values. What is read from such a document is settled by what is read from these texts,
each by itself, and by nothing else in it.
-/

namespace SchemaMigration

open Json Lexeme

namespace Json

structure Source where
  text : List Char
  valid : ValueSyntax text

structure Reader.Settles (read : Reader α) (text : Nat → List Char → Prop)
    (gives : Nat → α → Prop) : Prop where
  valid : ∀ {depth : Nat} {inner : List Char}, text depth inner → ValueSyntax inner
  alone_eq_ok_iff : ∀ {depth : Nat} {inner : List Char} {a : α}, text depth inner →
    (read.alone depth inner = .ok a ↔ gives depth a)

theorem Reader.Settles.document {read : Reader α} (hlocal : read.Local)
    {text : Nat → List Char → Prop} {gives : Nat → α → Prop} (h : read.Settles text gives)
    {document : String} (hdocument : DocumentText text document) {a : α} :
    Reader.document read document = .ok a ↔ gives maxDepth a := by
  obtain ⟨before, inner, after, hbefore, hafter, hinner, rfl⟩ := hdocument
  rw [hlocal.document (h.valid hinner) hbefore hafter]
  exact h.alone_eq_ok_iff hinner

namespace Source

def Text (s : Source) (_ : Nat) (text : List Char) : Prop := text = s.text

def Gives (read : Reader α) (s : Source) (depth : Nat) (a : α) : Prop :=
  read.alone depth s.text = .ok a

theorem settles (read : Reader α) (s : Source) : read.Settles s.Text (s.Gives read) where
  valid h := by
    rw [h]
    exact s.valid
  alone_eq_ok_iff h := by
    rw [h]
    rfl

end Source

def Field.CanRead (depth : Nat) (p : Part) (field : Field α) : Prop :=
  p.absent ∨ ∃ v set, p.text v ∧ field.read.alone depth v = .ok set

def Part.Valid (p : Part) : Prop := ∀ v, p.text v → ValueSyntax v

theorem Part.Valid.allows {p : Part} (h : p.Valid) {v : List Char} (hv : p.Allows v) :
    ValueSyntax v := by
  obtain hv | ⟨_, rfl⟩ := hv
  . exact h v hv
  . exact .null

theorem RecordMembers.valid {parts : List Part} (hparts : ∀ p ∈ parts, p.Valid)
    {members : List (String × List Char)} (h : RecordMembers parts members) :
    ∀ m ∈ members, ValueSyntax m.2 := by
  intro m hm
  obtain ⟨present, left, hperm, _, hown⟩ := h.own
  by_cases hkey : m.1 ∈ parts.map (·.key)
  . have hfilter : m ∈ members.filter fun m => (parts.map (·.key)).contains m.1 := by
      rw [List.mem_filter, List.contains_iff_mem]
      exact ⟨hm, hkey⟩
    obtain ⟨p, hp, _, hallows⟩ := exists_of_forall₂_of_mem hown hfilter
    exact (hparts p (hperm.mem_iff.mp (List.mem_append_left _ hp))).allows hallows
  . exact h.others m hm hkey

theorem RecordItems.valid {parts : List Part} (hparts : ∀ p ∈ parts, p.Valid)
    {items : List (List Char)} (h : RecordItems parts items) :
    ∀ item ∈ items, ValueSyntax item := by
  induction h with
  | cut => simp
  | cons hitem _ ih =>
    rw [List.forall_mem_cons] at hparts ⊢
    exact ⟨hparts.1.allows hitem, ih hparts.2⟩

theorem RecordText.valid {parts : Nat → List Part} (hparts : ∀ depth, ∀ p ∈ parts depth, p.Valid)
    {depth : Nat} {text : List Char} (h : RecordText parts depth text) : ValueSyntax text := by
  cases depth with
  | zero => exact h.elim
  | succ depth =>
    obtain ⟨members, hmembers, htext⟩ | ⟨items, hitems, htext⟩ := h
    . exact NameMap.valueSyntax_of_membersText htext (hmembers.valid (hparts depth))
    . exact .array (hitems.valid (hparts depth)) htext

namespace Record

variable {r : Record α} {depth : Nat} {parts : List Part} {text : List Char} {a : α}

theorem members_make (hfields : ∀ field ∈ r.fields, field.read.Local)
    {members : List (String × List Char)} (hvalues : ∀ m ∈ members, ValueSyntax m.2)
    (htext : MembersText members text) :
    r.read.Makes (depth + 1) text
      (members.foldlM (fun progress m => r.takeAlone depth progress m.1 m.2) ⟨[], r.blank⟩ >>=
        r.finish) := by
  obtain ⟨ms, hobject, hms⟩ := NameMap.objectText_of_membersText htext
  rw [← NameMap.foldlM_takeMember hms]
  exact object_makes hfields hms.keys (hms.values.mp hvalues) hobject

theorem alone_of_takeAlone (hkeys : (r.fields.map (·.key)).Nodup) {field : Field α}
    (hfield : field ∈ r.fields) {progress next : Progress α}
    (h : r.takeAlone depth progress field.key text = .ok next) :
    ∃ set, field.read.alone depth text = .ok set := by
  unfold takeAlone at h
  rw [find?_eq_some_of_mem hkeys hfield] at h
  dsimp only at h
  split at h
  . contradiction
  . rw [bind_eq_ok_iff] at h
    obtain ⟨set, hset, _⟩ := h
    exact ⟨set, hset⟩

theorem canRead_object (hfields : ∀ field ∈ r.fields, field.read.Local)
    (hnodup : (r.fields.map (·.key)).Nodup) (hkeys : parts.map (·.key) = r.fields.map (·.key))
    (hparts : ∀ p ∈ parts, p.Valid) {members : List (String × List Char)}
    (hmembers : RecordMembers parts members) (htext : MembersText members text)
    (h : r.read.alone (depth + 1) text = .ok a) :
    List.Forall₂ (Field.CanRead depth) parts r.fields := by
  rw [(members_make hfields (hmembers.valid hparts) htext).alone, bind_eq_ok_iff] at h
  obtain ⟨progress, hprogress, _⟩ := h
  have hsteps := exists_of_foldlM_eq_ok hprogress
  obtain ⟨present, left, hperm, hleft, hown⟩ := hmembers.own
  rw [← List.forall₂_eq_eq_eq, List.forall₂_map_left_iff, List.forall₂_map_right_iff,
    List.forall₂_iff_zip] at hkeys
  rw [List.forall₂_iff_zip]
  refine ⟨hkeys.1, ?_⟩
  intro p field hmem
  have hkey := hkeys.2 hmem
  obtain ⟨hp, hfield⟩ := List.of_mem_zip hmem
  rw [← hperm.mem_iff, List.mem_append] at hp
  cases hp with
  | inr hp => exact .inl (hleft p hp)
  | inl hp =>
    obtain ⟨m, hm, hname, hallows⟩ := exists_of_forall₂_of_mem hown.flip hp
    obtain hv | ⟨habsent, _⟩ := hallows
    . obtain ⟨before, next, hstep⟩ := hsteps m (List.mem_of_mem_filter hm)
      rw [← hname, hkey] at hstep
      obtain ⟨set, hset⟩ := alone_of_takeAlone hnodup hfield hstep
      exact .inr ⟨m.2, set, hv, hset⟩
    . exact .inl habsent

theorem canRead_items {fields : List (Field α)} (hlength : parts.length = fields.length)
    {items : List (List Char)} (hitems : RecordItems parts items) {index : Nat} {value : α}
    (h : r.takeItems depth fields index value items = .ok a) :
    List.Forall₂ (Field.CanRead depth) parts fields := by
  induction hitems generalizing fields index value with
  | cut habsent =>
    rw [List.forall₂_iff_zip]
    exact ⟨hlength, fun hmem => .inl (habsent _ (List.of_mem_zip hmem).1)⟩
  | cons hitem _ ih =>
    cases fields with
    | nil => contradiction
    | cons field fields =>
      rw [takeItems, bind_eq_ok_iff] at h
      obtain ⟨set, hset, h⟩ := h
      refine .cons ?_ (ih (Nat.succ.inj hlength) h)
      obtain hv | ⟨habsent, _⟩ := hitem
      . exact .inr ⟨_, set, hv, hset⟩
      . exact .inl habsent

theorem canRead_of_alone (hfields : ∀ field ∈ r.fields, field.read.Local)
    (hnodup : (r.fields.map (·.key)).Nodup) {parts : Nat → List Part}
    (hkeys : (parts depth).map (·.key) = r.fields.map (·.key))
    (hparts : ∀ p ∈ parts depth, p.Valid) (htext : RecordText parts (depth + 1) text)
    (h : r.read.alone (depth + 1) text = .ok a) :
    List.Forall₂ (Field.CanRead depth) (parts depth) r.fields := by
  obtain ⟨members, hmembers, htext⟩ | ⟨items, hitems, htext⟩ := htext
  . exact canRead_object hfields hnodup hkeys hparts hmembers htext h
  . rw [(array_makes hfields (hitems.valid hparts) htext).alone] at h
    have hlength := congrArg List.length hkeys
    rw [List.length_map, List.length_map] at hlength
    exact canRead_items hlength hitems h

theorem settles {parts : Nat → List Part} {gives : Nat → α → Prop}
    (hfields : ∀ field ∈ r.fields, field.read.Local) (hnodup : (r.fields.map (·.key)).Nodup)
    (hkeys : ∀ depth, (parts depth).map (·.key) = r.fields.map (·.key))
    (hparts : ∀ depth, ∀ p ∈ parts depth, p.Valid)
    (hexists : ∀ {depth}, List.Forall₂ (Field.CanRead depth) (parts depth) r.fields →
      ∃ a, gives (depth + 1) a)
    (hfills : ∀ {depth a}, gives (depth + 1) a → ∃ slots, r.Fills depth (parts depth) slots a) :
    r.read.Settles (RecordText parts) gives where
  valid h := h.valid hparts
  alone_eq_ok_iff := by
    intro depth text a htext
    cases depth with
    | zero => exact htext.elim
    | succ depth =>
      have hread : ∀ {a}, gives (depth + 1) a → r.read.alone (depth + 1) text = .ok a := by
        intro a ha
        obtain ⟨slots, hslots⟩ := hfills ha
        exact (hslots.finds_text htext).alone
      constructor
      . intro h
        obtain ⟨a', ha'⟩ :=
          hexists (canRead_of_alone hfields hnodup (hkeys depth) (hparts depth) htext h)
        rw [hread ha', Except.ok.injEq] at h
        rwa [← h]
      . exact hread

end Record

section Alone

variable {read : Reader α} {depth : Nat} {text : List Char} {f : α → β} {b : β}

theorem Reader.exists_of_alone_map (h : (Reader.map f read).alone depth text = .ok b) :
    ∃ a, read.alone depth text = .ok a := by
  have hmap : (Reader.map f read).alone depth text = (read.alone depth text).map f := by
    unfold Reader.alone Reader.map
    cases read depth text <;> rfl
  rw [hmap] at h
  cases ha : read.alone depth text with
  | error e =>
    rw [ha] at h
    contradiction
  | ok a => exact ⟨a, rfl⟩

theorem Reader.exists_of_alone_optional (hlocal : read.Local) (htext : ValueSyntax text)
    (hnull : text.head? ≠ some 'n') {part : Option α}
    (h : (Reader.optional read).alone depth text = .ok part) :
    ∃ a, read.alone depth text = .ok a := by
  rw [((hlocal.makes htext depth).optional htext.starts hnull).alone] at h
  cases ha : read.alone depth text with
  | error e =>
    rw [ha] at h
    contradiction
  | ok a => exact ⟨a, rfl⟩

end Alone

section Field

variable {read : Reader β} {depth : Nat} {key : String}

theorem Field.CanRead.mandatory {text : Nat → List Char → Prop} {gives : Nat → β → Prop}
    (h : read.Settles text gives) {set : β → α → α}
    (hread : Field.CanRead depth (.mandatory key (text depth)) (.mandatory key read set)) :
    ∃ b, gives depth b := by
  obtain habsent | ⟨v, _, hv, hset⟩ := hread
  . exact habsent.elim
  . obtain ⟨b, hb⟩ := Reader.exists_of_alone_map hset
    exact ⟨b, (h.alone_eq_ok_iff hv).mp hb⟩

theorem Slot.Fits.settled_mandatory {text : Nat → List Char → Prop} {gives : Nat → β → Prop}
    (hlocal : read.Local) (h : read.Settles text gives) {b : β} (hb : gives depth b) {blank : α}
    {set : β → α → α} :
    Slot.Fits blank depth (.mandatory key (text depth)) ⟨.mandatory key read set, set b⟩ := by
  apply Slot.Fits.mandatory
  intro t ht
  exact hlocal.finds (h.valid ht) ((h.alone_eq_ok_iff ht).mpr hb)

variable {γ : Type} {text : γ → Nat → List Char → Prop} {gives : γ → Nat → β → Prop}
  {source : Option γ}

theorem Field.CanRead.optional (hlocal : read.Local) (h : ∀ s, read.Settles (text s) (gives s))
    (hnull : ∀ s {v}, text s depth v → v.head? ≠ some 'n') {set : Option β → α → α}
    (hread : Field.CanRead depth (.optional key (fun s => text s depth) source)
      (.defaulted key (Reader.optional read) set)) :
    ∃ part, Option.Rel (fun s => gives s depth) source part := by
  obtain habsent | ⟨v, _, ⟨s, hs, hv⟩, hset⟩ := hread
  . have hsource : source = none := habsent
    rw [hsource]
    exact ⟨none, .none⟩
  . obtain ⟨_, hpart⟩ := Reader.exists_of_alone_map hset
    obtain ⟨b, hb⟩ :=
      Reader.exists_of_alone_optional hlocal ((h s).valid hv) (hnull s hv) hpart
    rw [Option.mem_def] at hs
    rw [hs]
    exact ⟨some b, .some (((h s).alone_eq_ok_iff hv).mp hb)⟩

theorem Slot.Fits.settled_optional (hlocal : read.Local)
    (h : ∀ s, read.Settles (text s) (gives s))
    (hnull : ∀ s {v}, text s depth v → v.head? ≠ some 'n') {part : Option β}
    (hpart : Option.Rel (fun s => gives s depth) source part) {blank : α}
    {set : Option β → α → α} (hblank : set none blank = blank) :
    Slot.Fits blank depth (.optional key (fun s => text s depth) source)
      ⟨.defaulted key (Reader.optional read) set, set part⟩ := by
  cases hpart with
  | none =>
    apply Slot.Fits.defaulted rfl
    . rintro t ⟨_, hs, _⟩
      contradiction
    . intro _
      rfl
    . exact hblank
  | @some s b hgives =>
    apply Slot.Fits.defaulted rfl
    . rintro t ⟨_, hs, ht⟩
      obtain rfl := Option.some.inj hs
      have hread := hlocal.finds ((h s).valid ht) (((h s).alone_eq_ok_iff ht).mpr hgives)
      exact ⟨some b, hread.optional (hnull s ht), rfl⟩
    . intro habsent
      contradiction
    . exact hblank

end Field

end Json

namespace NameMap

variable {α β : Type} {read : Reader α} {depth : Nat}

def Gives (gives : β → Nat → α → Prop) (source : NameMap β) : Nat → NameMap α → Prop
  | 0, _ => False
  | depth + 1, map =>
    map.names.Nodup ∧
      List.Forall₂ (fun s e => s.1 = e.1 ∧ gives s.2 depth e.2) source.entries map.entries

theorem settles (hlocal : read.Local) {text : β → Nat → List Char → Prop}
    {gives : β → Nat → α → Prop} (h : ∀ s, read.Settles (text s) (gives s)) (source : NameMap β) :
    (NameMap.reader read).Settles (source.Text text) (source.Gives gives) := by
  have hvalues : ∀ {depth} {members : List (String × List Char)},
      List.Forall₂ (fun s m => s.1 = m.1 ∧ text s.2 depth m.2) source.entries members →
      ∀ m ∈ members, ValueSyntax m.2 := by
    intro depth members hmembers m hm
    obtain ⟨s, _, _, hs⟩ := exists_of_forall₂_of_mem hmembers hm
    exact (h s.2).valid hs
  constructor
  . intro depth inner hinner
    cases depth with
    | zero => exact hinner.elim
    | succ depth =>
      obtain ⟨members, hmembers, htext⟩ := hinner
      exact valueSyntax_of_membersText htext (hvalues hmembers)
  . intro depth inner map hinner
    cases depth with
    | zero => exact hinner.elim
    | succ depth =>
      obtain ⟨members, hmembers, htext⟩ := hinner
      have hmap : (addMembers read depth [] members).map NameMap.mk = .ok map ↔
          addMembers read depth [] members = .ok map.entries := by
        cases addMembers read depth [] members with
        | error e => simp [Except.map]
        | ok entries =>
          simp only [Except.map, Except.ok.injEq]
          constructor
          . rintro rfl
            rfl
          . rintro rfl
            rfl
      rw [(reader_makes hlocal htext (hvalues hmembers)).alone, hmap, addMembers_eq_ok_iff]
      apply and_congr_right
      intro _
      apply forall₂_congr_of_forall₂ hmembers
      rintro s m e ⟨hname, hs⟩
      rw [(h s.2).alone_eq_ok_iff hs, hname, eq_comm]

end NameMap

namespace Json

section Bucket

variable {α β : Type} {read : Reader α} {text : β → Nat → List Char → Prop}
  {gives : β → Nat → α → Prop}

theorem Part.valid_mandatory {text : Nat → List Char → Prop} {gives : Nat → α → Prop}
    (h : read.Settles text gives) {key : String} {depth : Nat} :
    (Part.mandatory key (text depth)).Valid := fun _ hv => h.valid hv

theorem Part.valid_bucket (hlocal : read.Local) (h : ∀ s, read.Settles (text s) (gives s))
    {key : String} {depth : Nat} {source : Option (NameMap β)} :
    (Part.optional key (fun m => m.Text text depth) source).Valid := by
  rintro v ⟨m, _, hv⟩
  exact (NameMap.settles hlocal h m).valid hv

theorem Field.CanRead.bucket (hlocal : read.Local) (h : ∀ s, read.Settles (text s) (gives s))
    {key : String} {depth : Nat} {source : Option (NameMap β)}
    {set : Option (NameMap α) → γ → γ}
    (hread : Field.CanRead depth (.optional key (fun m => m.Text text depth) source)
      (.defaulted key (Reader.optional (NameMap.reader read)) set)) :
    ∃ part, Option.Rel (fun m => m.Gives gives depth) source part :=
  hread.optional hlocal.nameMap (NameMap.settles hlocal h) fun _ _ hv => hv.head_ne

theorem Slot.Fits.bucket (hlocal : read.Local) (h : ∀ s, read.Settles (text s) (gives s))
    {key : String} {depth : Nat} {source : Option (NameMap β)} {part : Option (NameMap α)}
    (hpart : Option.Rel (fun m => m.Gives gives depth) source part)
    {set : Option (NameMap α) → γ → γ} {blank : γ} (hblank : set none blank = blank) :
    Slot.Fits blank depth (.optional key (fun m => m.Text text depth) source)
      ⟨.defaulted key (Reader.optional (NameMap.reader read)) set, set part⟩ :=
  Slot.Fits.settled_optional hlocal.nameMap (NameMap.settles hlocal h)
    (fun _ _ hv => hv.head_ne) hpart hblank

end Bucket

end Json

end SchemaMigration
