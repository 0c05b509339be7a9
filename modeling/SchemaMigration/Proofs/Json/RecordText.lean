import SchemaMigration.Proofs.Json.Composite
import SchemaMigration.Proofs.Json.Skip
import SchemaMigration.Proofs.Sequence
import Mathlib.Data.List.Perm.Basic

/-!
This module contains the ways to spell maps and records. A record is an object, with its parts in
any order and among members that are not its own, or an array of its parts. Either way it is read as
the same record.
-/

namespace SchemaMigration

open Json Lexeme

def Json.DocumentText (text : Nat → List Char → Prop) (document : String) : Prop :=
  ∃ before inner after, before.all isSpace ∧ after.all isSpace ∧ text maxDepth inner ∧
    document = String.ofList (before ++ (inner ++ after))

theorem Json.DocumentText.document {text : Nat → List Char → Prop} {document : String}
    (h : DocumentText text document) {read : Reader α} {a : α}
    (hread : ∀ {depth : Nat} {inner : List Char}, text depth inner → read.Finds depth inner a) :
    Reader.document read document = .ok a := by
  obtain ⟨before, inner, after, hbefore, hafter, htext, rfl⟩ := h
  exact (hread htext).document hbefore hafter

def NameMap.Text (entry : α → Nat → List Char → Prop) (map : NameMap α) : Nat → List Char → Prop
  | 0, _ => False
  | depth + 1, text =>
    ∃ members, List.Forall₂ (fun e m => e.1 = m.1 ∧ entry e.2 depth m.2) map.entries members ∧
      MembersText members text

theorem NameMap.Text.head_ne {entry : α → Nat → List Char → Prop} {map : NameMap α} {depth : Nat}
    {text : List Char} (h : map.Text entry depth text) : text.head? ≠ some 'n' := by
  cases depth with
  | zero => exact h.elim
  | succ depth =>
    obtain ⟨_, _, _, _, _, _, rfl⟩ := h
    simp

theorem NameMap.text_write {entry : α → Nat → List Char → Prop} {value : α → Json}
    {map : NameMap α} {style : Style} (hstyle : style.Blank) {level depth : Nat}
    (hentries : ∀ e ∈ map.entries, ∀ {inner : Nat}, (value e.2).height ≤ inner →
      entry e.2 inner (write style (level + 1) (value e.2)))
    (hheight : (map.toJson value).height ≤ depth) :
    map.Text entry depth (write style level (map.toJson value)) := by
  have hobject : map.toJson value = .object (map.entries.map fun e => (e.1, value e.2)) := rfl
  rw [hobject] at hheight ⊢
  cases depth with
  | zero => exact absurd hheight not_height_object_le_zero
  | succ depth =>
    rw [height_object_le, List.forall_mem_map] at hheight
    refine ⟨_, ?_, membersText_write hstyle level _⟩
    rw [List.map_map, List.forall₂_map_right_iff, List.forall₂_same]
    intro e he
    exact ⟨rfl, hentries e he (hheight e he)⟩

theorem NameMap.Text.finds {entry : α → Nat → List Char → Prop} {read : Reader α} {map : NameMap α}
    {depth : Nat} {text : List Char} (h : map.Text entry depth text) (hnames : map.names.Nodup)
    (hentries : ∀ e ∈ map.entries, ∀ {inner : Nat} {text : List Char}, entry e.2 inner text →
      read.Finds inner text e.2) : (NameMap.reader read).Finds depth text map := by
  cases depth with
  | zero => exact h.elim
  | succ depth =>
    obtain ⟨members, hmembers, htext⟩ := h
    apply NameMap.finds hnames _ htext
    rw [List.forall₂_iff_zip] at hmembers ⊢
    refine ⟨hmembers.1, ?_⟩
    intro e m hmem
    obtain ⟨hname, htext⟩ := hmembers.2 hmem
    exact ⟨hname, hentries e (List.of_mem_zip hmem).1 htext⟩

namespace Json

structure Part where
  key : String
  text : List Char → Prop
  absent : Prop

namespace Part

def mandatory (key : String) (text : List Char → Prop) : Part := ⟨key, text, False⟩

def optional (key : String) (text : β → List Char → Prop) (part : Option β) : Part :=
  ⟨key, fun t => ∃ b ∈ part, text b t, part = none⟩

-- A part that is absent may be written as `null`.
def Allows (p : Part) (text : List Char) : Prop := p.text text ∨ p.absent ∧ text = nullText

end Part

/--
The members of a record: its parts in any order, of which only absent ones may be missing, and
anywhere between them members with other keys.
-/
structure RecordMembers (parts : List Part) (members : List (String × List Char)) : Prop where
  own : ∃ present left : List Part, (present ++ left).Perm parts ∧ (∀ p ∈ left, p.absent) ∧
    List.Forall₂ (fun p m => p.key = m.1 ∧ p.Allows m.2) present
      (members.filter fun m => (parts.map (·.key)).contains m.1)
  others : ∀ m ∈ members, m.1 ∉ parts.map (·.key) → ValueSyntax m.2

-- The items of a record written as an array. What is cut off at its end is absent.
inductive RecordItems : List Part → List (List Char) → Prop where
  | cut {parts : List Part} (h : ∀ p ∈ parts, p.absent) : RecordItems parts []
  | cons {p : Part} {parts : List Part} {item : List Char} {items : List (List Char)}
      (hitem : p.Allows item) (h : RecordItems parts items) :
      RecordItems (p :: parts) (item :: items)

def RecordText (parts : Nat → List Part) : Nat → List Char → Prop
  | 0, _ => False
  | depth + 1, text =>
    (∃ members, RecordMembers (parts depth) members ∧ MembersText members text) ∨
      ∃ items, RecordItems (parts depth) items ∧ ArrayText items text

theorem RecordText.head_ne {parts : Nat → List Part} {depth : Nat} {text : List Char}
    (h : RecordText parts depth text) : text.head? ≠ some 'n' := by
  cases depth with
  | zero => exact h.elim
  | succ depth =>
    obtain ⟨_, _, _, _, _, _, rfl⟩ | ⟨_, _, _, _, rfl⟩ := h
    . simp
    . simp

inductive WrittenParts (style : Style) (level depth : Nat) :
    List Part → List (String × Json) → Prop where
  | nil : WrittenParts style level depth [] []
  | absent {p : Part} {parts : List Part} {members : List (String × Json)} (habsent : p.absent)
      (h : WrittenParts style level depth parts members) :
      WrittenParts style level depth (p :: parts) members
  | present {p : Part} {parts : List Part} {members : List (String × Json)} {j : Json}
      (htext : j.height ≤ depth → p.text (write style level j))
      (h : WrittenParts style level depth parts members) :
      WrittenParts style level depth (p :: parts) ((p.key, j) :: members)

namespace WrittenParts

variable {style : Style} {level depth : Nat} {parts : List Part} {members : List (String × Json)}

theorem mandatory {key : String} {text : List Char → Prop} {j : Json}
    (htext : j.height ≤ depth → text (write style level j))
    (h : WrittenParts style level depth parts members) :
    WrittenParts style level depth (.mandatory key text :: parts) ((key, j) :: members) :=
  .present htext h

theorem optional {key : String} {text : β → List Char → Prop} {value : β → Json}
    {part : Option β}
    (htext : ∀ b ∈ part, (value b).height ≤ depth → text b (write style level (value b)))
    (h : WrittenParts style level depth parts members) :
    WrittenParts style level depth (.optional key text part :: parts)
      (optionalMember key value part ++ members) := by
  cases part with
  | none => exact .absent rfl h
  | some b => exact .present (fun hheight => ⟨b, rfl, htext b rfl hheight⟩) h

theorem own (h : WrittenParts style level depth parts members)
    (hheight : ∀ m ∈ members, m.2.height ≤ depth) :
    ∃ present left : List Part, (present ++ left).Perm parts ∧ (∀ p ∈ left, p.absent) ∧
      List.Forall₂ (fun p m => p.key = m.1 ∧ p.Allows m.2) present
        (members.map fun m => (m.1, write style level m.2)) := by
  induction h with
  | nil => exact ⟨[], [], .nil, by simp, .nil⟩
  | @absent p _ _ habsent _ ih =>
    obtain ⟨present, left, hperm, hleft, hown⟩ := ih hheight
    refine ⟨present, p :: left, List.perm_middle.trans (hperm.cons p), ?_, hown⟩
    rw [List.forall_mem_cons]
    exact ⟨habsent, hleft⟩
  | @present p _ _ _ htext _ ih =>
    rw [List.forall_mem_cons] at hheight
    obtain ⟨present, left, hperm, hleft, hown⟩ := ih hheight.2
    exact ⟨p :: present, left, hperm.cons p, hleft, .cons ⟨rfl, .inl (htext hheight.1)⟩ hown⟩

theorem keys (h : WrittenParts style level depth parts members) :
    ∀ m ∈ members, m.1 ∈ parts.map (·.key) := by
  induction h with
  | nil => simp
  | absent _ _ ih =>
    intro m hm
    exact List.mem_cons_of_mem _ (ih m hm)
  | present _ _ ih =>
    rw [List.forall_mem_cons]
    exact ⟨List.mem_cons_self, fun m hm => List.mem_cons_of_mem _ (ih m hm)⟩

theorem recordMembers (h : WrittenParts style level depth parts members)
    (hheight : ∀ m ∈ members, m.2.height ≤ depth) :
    RecordMembers parts (members.map fun m => (m.1, write style level m.2)) := by
  have hkeys : ∀ m ∈ members.map fun m => (m.1, write style level m.2),
      m.1 ∈ parts.map (·.key) := by
    rw [List.forall_mem_map]
    exact h.keys
  constructor
  . rw [List.filter_eq_self.mpr fun m hm => List.contains_iff_mem.mpr (hkeys m hm)]
    exact h.own hheight
  . intro m hm hkey
    exact absurd (hkeys m hm) hkey

end WrittenParts

theorem recordText_write {parts : Nat → List Part} {style : Style} (hstyle : style.Blank)
    {level depth : Nat} {members : List (String × Json)}
    (h : ∀ {inner : Nat}, WrittenParts style (level + 1) inner (parts inner) members)
    (hheight : (Json.object members).height ≤ depth) :
    RecordText parts depth (write style level (.object members)) := by
  cases depth with
  | zero => exact absurd hheight not_height_object_le_zero
  | succ depth =>
    rw [height_object_le] at hheight
    exact .inl ⟨_, h.recordMembers hheight, membersText_write hstyle level members⟩

structure Slot (α : Type) where
  field : Field α
  set : α → α

namespace Slot

def fill (slots : List (Slot α)) (a : α) : α := slots.foldl (fun a s => s.set a) a

structure Fits (blank : α) (depth : Nat) (p : Part) (s : Slot α) : Prop where
  key : p.key = s.field.key
  finds : ∀ {text : List Char}, p.Allows text → s.field.read.Finds depth text s.set
  absent : p.absent → s.field.required = false ∧ s.set blank = blank

theorem fill_blank {slots : List (Slot α)} {blank : α} (h : ∀ s ∈ slots, s.set blank = blank) :
    fill slots blank = blank := by
  induction slots with
  | nil => rfl
  | cons s slots ih =>
    rw [List.forall_mem_cons] at h
    unfold fill at ih ⊢
    rw [List.foldl_cons, h.1]
    exact ih h.2

variable {blank : α} {depth : Nat} {key : String} {read : Reader β}

theorem blank_of_absent {parts : List Part} {slots : List (Slot α)}
    (hfits : List.Forall₂ (Fits blank depth) parts slots) (habsent : ∀ p ∈ parts, p.absent) :
    ∀ s ∈ slots, s.field.required = false ∧ s.set blank = blank := by
  intro s hs
  obtain ⟨p, hp, hfits⟩ := exists_of_forall₂_of_mem hfits hs
  exact hfits.absent (habsent p hp)

theorem Fits.mandatory {set : β → α → α} {text : List Char → Prop} {b : β}
    (h : ∀ t, text t → read.Finds depth t b) :
    Fits blank depth (.mandatory key text) ⟨.mandatory key read set, set b⟩ where
  key := rfl
  finds := by
    intro t ht
    obtain ht | ⟨habsent, _⟩ := ht
    . exact (h t ht).map set
    . exact habsent.elim
  absent := False.elim

theorem null_finds (read : Reader β) (depth : Nat) :
    (Reader.optional read).Finds depth nullText none where
  starts := rfl
  reads := by
    intro space rest hspace _
    unfold Reader.optional
    rw [skipSpace_value hspace rfl]
    simp [nullText, word, bind, Except.bind]

theorem Fits.defaulted {set : Option β → α → α} {f : α → α} {p : Part} (hkey : p.key = key)
    (htext : ∀ t, p.text t → ∃ part, (Reader.optional read).Finds depth t part ∧ set part = f)
    (hnull : p.absent → set none = f) (hblank : set none blank = blank) :
    Fits blank depth p ⟨.defaulted key (Reader.optional read) set, f⟩ where
  key := hkey
  finds := by
    intro t ht
    obtain ht | ⟨habsent, rfl⟩ := ht
    . obtain ⟨part, hpart, rfl⟩ := htext t ht
      exact hpart.map set
    . rw [← hnull habsent]
      exact (null_finds read depth).map set
  absent h := by
    rw [← hnull h]
    exact ⟨rfl, hblank⟩

theorem Fits.optional {set : Option β → α → α} {text : β → List Char → Prop} {part : Option β}
    (hpart : ∀ b ∈ part, ∀ t, text b t → read.Finds depth t b ∧ t.head? ≠ some 'n')
    (hblank : set none blank = blank) :
    Fits blank depth (.optional key text part)
      ⟨.defaulted key (Reader.optional read) set, set part⟩ := by
  apply Fits.defaulted rfl
  . rintro t ⟨b, hb, ht⟩
    obtain ⟨hread, hnull⟩ := hpart b hb t ht
    refine ⟨some b, hread.optional hnull, ?_⟩
    rw [hb]
  . intro habsent
    rw [habsent]
  . exact hblank

end Slot

namespace Record

structure Fills (r : Record α) (depth : Nat) (parts : List Part) (slots : List (Slot α)) (a : α) :
    Prop where
  keys : (r.fields.map (·.key)).Nodup
  fields : slots.map (·.field) = r.fields
  fits : List.Forall₂ (Slot.Fits r.blank depth) parts slots
  commute : slots.Pairwise fun s t => ∀ b, s.set (t.set b) = t.set (s.set b)
  filled : Slot.fill slots r.blank = a

variable {r : Record α} {depth : Nat} {parts : List Part} {slots : List (Slot α)} {a : α}

theorem Fills.keys_eq (h : r.Fills depth parts slots a) :
    parts.map (·.key) = r.fields.map (·.key) := by
  rw [← h.fields, List.map_map]
  exact map_eq_map_of_forall₂ h.fits fun _ _ hfits => hfits.key

-- Only such parts as are absent may be left out, and in whatever order the others are filled in,
-- they make the same record.
theorem Fills.fill_present (h : r.Fills depth parts slots a) {present left : List (Slot α)}
    (hperm : (present ++ left).Perm slots) (hleft : ∀ s ∈ left, s.set r.blank = r.blank) :
    Slot.fill present r.blank = a := by
  have hcommute : ∀ s ∈ left ++ present, ∀ t ∈ left ++ present, ∀ b,
      t.set (s.set b) = s.set (t.set b) := by
    intro s hs t ht
    have hmem := fun s => (List.perm_append_comm.trans hperm).mem_iff (a := s)
    refine List.Pairwise.forall_of_forall_of_flip ?_ h.commute ?_ ((hmem t).mp ht) ((hmem s).mp hs)
    . intro s _ b
      rfl
    . exact h.commute.imp fun hst b => (hst b).symm
  rw [← h.filled]
  calc Slot.fill present r.blank
    _ = Slot.fill present (Slot.fill left r.blank) := by rw [Slot.fill_blank hleft]
    _ = Slot.fill (left ++ present) r.blank := (List.foldl_append ..).symm
    _ = Slot.fill slots r.blank :=
      (List.perm_append_comm.trans hperm).foldl_eq' hcommute r.blank

theorem member_of_unknown {key : String} (hkey : key ∉ r.fields.map (·.key))
    (progress : Progress α) {text : List Char} (htext : ValueSyntax text)
    {cs space rest : List Char} (hcolon : Reader.colon cs = .ok (space ++ (text ++ rest)))
    (hspace : space.all isSpace) (hrest : EndsNumber rest) :
    r.member depth progress key cs = .ok (progress, rest) := by
  have hfind : r.fields.find? (·.key == key) = none := by
    rw [List.find?_eq_none]
    intro field hfield heq
    apply hkey
    rw [← beq_iff_eq.mp heq]
    exact List.mem_map_of_mem hfield
  unfold member
  simp only [hfind]
  rw [hcolon]
  simp only [bind, Except.bind]
  rw [Skip.value_eq_ok_iff.mpr (Skip.passes_valueSyntax htext hspace hrest)]

theorem runs_member (hkeys : (r.fields.map (·.key)).Nodup) {present : List (Slot α)}
    {members : List (String × List Char)}
    (hown : List.Forall₂ (fun s m => s.field.key = m.1 ∧ s.field.read.Finds depth m.2 s.set) present
      (members.filter fun m => (r.fields.map (·.key)).contains m.1))
    (hothers : ∀ m ∈ members, m.1 ∉ r.fields.map (·.key) → ValueSyntax m.2)
    (hfields : ∀ s ∈ present, s.field ∈ r.fields) (hnodup : (present.map (·.field.key)).Nodup)
    {seen : List String} (hnew : ∀ s ∈ present, s.field.key ∉ seen) (b : α) :
    Reader.Runs (r.member depth) ⟨seen, b⟩ members
      ⟨(present.map (·.field.key)).reverse ++ seen, Slot.fill present b⟩ := by
  induction members generalizing present seen b with
  | nil =>
    cases hown
    exact .nil
  | cons m members ih =>
    rw [List.forall_mem_cons] at hothers
    rw [List.filter_cons] at hown
    split at hown
    . cases hown with
      | @cons s _ present _ hs hown =>
        rw [List.forall_mem_cons] at hfields hnew
        rw [List.map_cons, List.nodup_cons] at hnodup
        have hnext : ∀ t ∈ present, t.field.key ∉ s.field.key :: seen := by
          intro t ht hmem
          rw [List.mem_cons] at hmem
          cases hmem with
          | inl heq =>
            apply hnodup.1
            rw [← heq]
            exact List.mem_map_of_mem ht
          | inr hmem => exact hnew.2 t ht hmem
        have hruns := ih hown hothers.2 hfields.2 hnodup.2 hnext (s.set b)
        rw [List.map_cons, List.reverse_cons, List.append_assoc]
        refine .cons ?_ hruns
        intro cs space rest hcolon hspace hrest
        rw [← hs.1]
        exact member_of_known hkeys hfields.1 hnew.1 hs.2 hcolon hspace hrest
    . next hkey =>
      rw [List.contains_iff_mem] at hkey
      refine .cons ?_ (ih hown hothers.2 hfields hnodup hnew b)
      intro cs space rest hcolon hspace hrest
      exact member_of_unknown hkey _ (hothers.1 hkey) hcolon hspace hrest

theorem forall₂_members {blank : α} {present : List Part} {slots : List (Slot α)}
    {members : List (String × List Char)}
    (hfits : List.Forall₂ (Slot.Fits blank depth) present slots)
    (hown : List.Forall₂ (fun p m => p.key = m.1 ∧ p.Allows m.2) present members) :
    List.Forall₂ (fun s m => s.field.key = m.1 ∧ s.field.read.Finds depth m.2 s.set) slots
      members := by
  induction hfits generalizing members with
  | nil =>
    cases hown
    exact .nil
  | cons hfit _ ih =>
    cases hown with
    | cons hm hown =>
      refine .cons ⟨?_, hfit.finds hm.2⟩ (ih hown)
      rw [← hfit.key, hm.1]

theorem Fills.finds_object (h : r.Fills depth parts slots a) {members : List (String × List Char)}
    (hmembers : RecordMembers parts members) {text : List Char} (htext : MembersText members text) :
    r.read.Finds (depth + 1) text a := by
  obtain ⟨⟨parts', absent, hparts, habsent, hown⟩, hothers⟩ := hmembers
  rw [h.keys_eq] at hown hothers
  obtain ⟨both, hboth, hperm⟩ := List.perm_comp_forall₂ hparts h.fits
  obtain ⟨present, left, rfl, hpresent, hleft⟩ := forall₂_append_left hboth
  have hfields := hperm.map (·.field)
  rw [h.fields, List.map_append] at hfields
  have hkeys := hfields.map (·.key)
  rw [List.map_append, List.map_map, List.map_map] at hkeys
  have hnodup : (present.map (·.field.key)).Nodup :=
    (List.nodup_append.mp (hkeys.nodup_iff.mpr h.keys)).1
  have hblank := Slot.blank_of_absent hleft habsent
  have hmem : ∀ s ∈ present, s.field ∈ r.fields := by
    intro s hs
    rw [← hfields.mem_iff, List.mem_append]
    exact .inl (List.mem_map_of_mem hs)
  have hruns := runs_member h.keys (forall₂_members hpresent hown) hothers hmem hnodup
    (fun _ _ => List.not_mem_nil) r.blank
  rw [h.fill_present hperm fun s hs => (hblank s hs).2] at hruns
  apply finds_of_runs hruns _ htext
  intro field hfield hrequired
  rw [← hfields.mem_iff, List.mem_append, List.mem_map, List.mem_map] at hfield
  obtain ⟨s, hs, rfl⟩ | ⟨s, hs, rfl⟩ := hfield
  . have hseen : s.field.key ∈ present.map (·.field.key) := List.mem_map_of_mem hs
    simpa using hseen
  . rw [(hblank s hs).1] at hrequired
    contradiction

theorem closing_space {space : List Char} (hspace : space.all isSpace) (rest : List Char) :
    closing (space ++ ']' :: rest) = .ok rest := by
  unfold closing
  rw [skipSpace_append hspace, skipSpace_cons rfl]
  rfl

theorem positional_item {index : Nat} {field : Field α} {text rest cs : List Char} {set : α → α}
    (hnext : Reader.nextItem (index == 0) cs = .ok (.item (text ++ rest)))
    (hread : field.read.Finds depth text set) (hrest : EndsNumber rest) (fields : List (Field α))
    (b : α) :
    r.positional depth (field :: fields) index b cs =
      r.positional depth fields (index + 1) (set b) rest := by
  conv => lhs; unfold positional
  rw [hnext]
  simp only [bind, Except.bind]
  rw [hread.reads_plain hrest]

-- Behind the last item there may be fields that are cut off.
theorem positional_cut (hslots : ∀ s ∈ slots, s.field.required = false ∧ s.set r.blank = r.blank)
    {space : List Char} (hspace : space.all isSpace) (index : Nat) (b : α) (rest : List Char) :
    r.positional depth (slots.map (·.field)) index b (space ++ ']' :: rest) = .ok (b, rest) := by
  have hrequired : (slots.map (·.field)).findIdx? (·.required) = none := by
    rw [List.findIdx?_eq_none_iff, List.forall_mem_map]
    exact fun s hs => (hslots s hs).1
  cases slots with
  | nil =>
    simp only [List.map_nil, positional]
    rw [closing_space hspace]
    rfl
  | cons s slots =>
    rw [List.map_cons] at hrequired ⊢
    unfold positional
    rw [Reader.nextItem_closing hspace]
    simp only [bind, Except.bind, hrequired]

def ReadsItems (r : Record α) (depth : Nat) (slots : List (Slot α)) (index : Nat)
    (cs rest : List Char) : Prop :=
  ∃ present left, slots = present ++ left ∧ (∀ s ∈ left, s.set r.blank = r.blank) ∧
    ∀ b, r.positional depth (slots.map (·.field)) index b cs = .ok (Slot.fill present b, rest)

theorem readsItems_cut (hslots : ∀ s ∈ slots, s.field.required = false ∧ s.set r.blank = r.blank)
    {space : List Char} (hspace : space.all isSpace) (index : Nat) (rest : List Char) :
    r.ReadsItems depth slots index (space ++ [']'] ++ rest) rest := by
  refine ⟨[], slots, rfl, fun s hs => (hslots s hs).2, ?_⟩
  intro b
  rw [List.append_assoc, List.singleton_append]
  exact positional_cut hslots hspace index b rest

theorem ReadsItems.cons {s : Slot α} {index : Nat} {text cs cs' rest : List Char}
    (h : r.ReadsItems depth slots (index + 1) cs' rest)
    (hnext : Reader.nextItem (index == 0) cs = .ok (.item (text ++ cs')))
    (hread : s.field.read.Finds depth text s.set) (hends : EndsNumber cs') :
    r.ReadsItems depth (s :: slots) index cs rest := by
  obtain ⟨present, left, rfl, hleft, hrest⟩ := h
  refine ⟨s :: present, left, rfl, hleft, ?_⟩
  intro b
  rw [List.map_cons, positional_item hnext hread hends]
  exact hrest (s.set b)

theorem readsItems_behind (hfits : List.Forall₂ (Slot.Fits r.blank depth) parts slots)
    {items : List (List Char)} (hitems : RecordItems parts items) {tail : List Char}
    (htail : Behind ']' items tail) (index : Nat) (rest : List Char) :
    r.ReadsItems depth slots (index + 1) (tail ++ rest) rest := by
  induction hitems generalizing slots tail index with
  | cut habsent =>
    cases htail with
    | nil hspace => exact readsItems_cut (Slot.blank_of_absent hfits habsent) hspace _ rest
  | cons hitem _ ih =>
    cases hfits with
    | cons hfit hfits =>
      cases htail with
      | cons hafter hbefore htail =>
        have hread := hfit.finds hitem
        apply (ih hfits htail (index + 1)).cons ?_ hread
        . exact htail.endsNumber (by simp : EndsNumber [']']) rest
        . simp only [List.append_assoc, List.cons_append]
          rw [Reader.nextItem_space hafter]
          exact Reader.nextItem_comma hbefore hread.starts _

theorem readsItems_inside (hfits : List.Forall₂ (Slot.Fits r.blank depth) parts slots)
    {items : List (List Char)} (hitems : RecordItems parts items) {inside : List Char}
    (hinside : Inside ']' items inside) (rest : List Char) :
    r.ReadsItems depth slots 0 (inside ++ rest) rest := by
  cases hitems with
  | cut habsent =>
    cases hinside with
    | nil hspace => exact readsItems_cut (Slot.blank_of_absent hfits habsent) hspace 0 rest
  | cons hitem hitems =>
    cases hfits with
    | cons hfit hfits =>
      cases hinside with
      | cons hbefore htail =>
        have hread := hfit.finds hitem
        apply (readsItems_behind hfits hitems htail 0 rest).cons ?_ hread
        . exact htail.endsNumber (by simp : EndsNumber [']']) rest
        . rw [List.append_assoc, List.append_assoc]
          exact Reader.nextItem_first hbefore hread.starts _

theorem Fills.finds_array (h : r.Fills depth parts slots a) {items : List (List Char)}
    (hitems : RecordItems parts items) {text : List Char} (htext : ArrayText items text) :
    r.read.Finds (depth + 1) text a := by
  obtain ⟨inside, hinside, rfl⟩ := htext
  constructor
  . rfl
  . intro space rest hspace _
    obtain ⟨present, left, hslots, hleft, hread⟩ := readsItems_inside h.fits hitems hinside rest
    unfold read
    rw [skipSpace_value hspace rfl]
    simp only [List.cons_append, Reader.inside]
    rw [← h.fields, hread]
    rw [h.fill_present (by rw [hslots]) hleft]

theorem Fills.finds_text {parts : Nat → List Part} (h : r.Fills depth (parts depth) slots a)
    {text : List Char} (htext : RecordText parts (depth + 1) text) :
    r.read.Finds (depth + 1) text a := by
  obtain ⟨members, hmembers, htext⟩ | ⟨items, hitems, htext⟩ := htext
  . exact h.finds_object hmembers htext
  . exact h.finds_array hitems htext

theorem finds_text {parts : Nat → List Part} {text : List Char}
    (htext : RecordText parts depth text)
    (hfills : ∀ inner, ∃ slots, r.Fills inner (parts inner) slots a) :
    r.read.Finds depth text a := by
  cases depth with
  | zero => exact htext.elim
  | succ depth =>
    obtain ⟨slots, h⟩ := hfills depth
    exact h.finds_text htext

end Record

end Json

end SchemaMigration
