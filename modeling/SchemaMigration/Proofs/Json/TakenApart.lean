import SchemaMigration.Proofs.Json.Grammar
import SchemaMigration.Proofs.Json.SourceText
import Mathlib.Data.List.Nodup

/-!
This module contains that whatever is read can be taken apart into texts. A map that is read has a
source, and so does a record, however either is written.
-/

namespace SchemaMigration

open Json Lexeme

namespace Json

structure Reader.Covered {γ : Type} (read : Reader α) (text : γ → Nat → List Char → Prop) :
    Prop where
  exists_source : ∀ {depth : Nat} {inner : List Char} {a : α}, ValueSyntax inner →
    read.alone depth inner = .ok a → ∃ s, text s depth inner

theorem Source.covered (read : Reader α) : read.Covered Source.Text where
  exists_source h _ := ⟨⟨_, h⟩, rfl⟩

theorem Reader.Covered.document {γ : Type} {read : Reader α}
    {text : γ → Nat → List Char → Prop} (h : read.Covered text) (hlocal : read.Local)
    (hagrees : read.Agrees) {document : String} {a : α}
    (hread : Reader.document read document = .ok a) : ∃ s, DocumentText (text s) document := by
  obtain ⟨before, inner, after, hbefore, hafter, hinner, rfl⟩ := hagrees.documentText hread
  rw [hlocal.document hinner hbefore hafter] at hread
  obtain ⟨s, hs⟩ := h.exists_source hinner hread
  exact ⟨s, before, inner, after, hbefore, hafter, hs, rfl⟩

theorem Reader.alone_ne_ok_of_mismatch {read : Reader α} {depth : Nat} {text : List Char}
    {expected : String} {a : α}
    (h : read depth (text ++ []) = Reader.mismatch expected (text ++ [])) :
    read.alone depth text ≠ .ok a := by
  rw [List.append_nil] at h
  unfold Reader.alone
  rw [h]
  cases hmismatch : (Reader.mismatch expected text : Except Error (α × List Char)) with
  | error e => simp [Except.map]
  | ok result => exact absurd hmismatch (Reader.mismatch_ne_ok _ _)

end Json

namespace NameMap

theorem exists_spelled {own : σ → String → List Char → Except Json.Error σ}
    {ms : List (List Char × List Char)} (hkeys : ∀ m ∈ ms, StringSyntax m.1) {s s' : σ}
    (h : ms.foldlM (Reader.takeMember own) s = .ok s') : ∃ members, Spelled members ms := by
  apply exists_forall₂
  intro m hm
  obtain ⟨_, _, htake⟩ := exists_of_foldlM_eq_ok h m hm
  unfold Reader.takeMember at htake
  rw [bind_eq_ok_iff] at htake
  obtain ⟨k, hk, _⟩ := htake
  exact ⟨(k, m.2), Reader.stringText_of_alone (hkeys m hm) hk, rfl⟩

theorem membersText_of_spelled {members : List (String × List Char)}
    {ms : List (List Char × List Char)} (h : Spelled members ms) {text : List Char}
    (htext : ObjectText ms text) : MembersText members text := by
  obtain ⟨items, inside, hitems, hinside, rfl⟩ := htext
  refine ⟨items, inside, ?_, hinside, rfl⟩
  clear hinside
  induction h generalizing items with
  | nil =>
    cases hitems
    exact .nil
  | cons hm _ ih =>
    cases hitems with
    | cons hitem hitems =>
      obtain ⟨hkey, hvalue⟩ := hm
      refine .cons ⟨_, hkey, ?_⟩ (ih _ hitems)
      rwa [hvalue]

section Map

variable {α : Type} {read : Reader α} {depth : Nat} {text : List Char} {map : NameMap α}

theorem objectText_of_alone (htext : ValueSyntax text)
    (h : (NameMap.reader read).alone depth text = .ok map) :
    ∃ inner ms, depth = inner + 1 ∧ (∀ m ∈ ms, StringSyntax m.1) ∧
      (∀ m ∈ ms, ValueSyntax m.2) ∧ ObjectText ms text := by
  have hhead : text.head? = some '\x7b' := by
    apply Decidable.byContradiction
    intro hhead
    exact Reader.alone_ne_ok_of_mismatch (Reader.nameMap_of_head_ne htext.starts hhead depth []) h
  cases htext.alike depth with
  | scalar h => exact absurd hhead h.head_ne.2
  | array _ harray | deepArray _ harray =>
    obtain ⟨_, _, rfl⟩ := harray
    contradiction
  | object hkeys hvalues hobject =>
    exact ⟨_, _, rfl, hkeys, fun m hm => (hvalues m hm).valueSyntax, hobject⟩
  | deepObject _ _ hobject =>
    obtain ⟨_, _, _, _, rfl⟩ := hobject
    contradiction

theorem covered (hlocal : read.Local) {γ : Type} {text : γ → Nat → List Char → Prop}
    (h : read.Covered text) :
    (NameMap.reader read).Covered fun (m : NameMap γ) => m.Text text where
  exists_source := by
    intro depth inner map hinner hread
    obtain ⟨depth, ms, rfl, hkeys, hvalues, hobject⟩ := objectText_of_alone hinner hread
    have hat : ∀ m ∈ ms, read.LocalAt depth m.2 := fun m hm => hlocal.at (hvalues m hm) depth
    rw [(Reader.nameMap_makes hkeys hat hobject).alone] at hread
    cases hentries : ms.foldlM (Reader.takeMember (Reader.addAlone read depth)) [] with
    | error e =>
      rw [hentries] at hread
      contradiction
    | ok entries =>
      obtain ⟨members, hmembers⟩ := exists_spelled hkeys hentries
      rw [foldlM_takeMember hmembers] at hentries
      obtain ⟨added, _, hadded⟩ := forall₂_of_addMembers hentries
      have hsource : ∀ m ∈ members, ∃ e : String × γ, e.1 = m.1 ∧ text e.2 depth m.2 := by
        intro m hm
        obtain ⟨e, _, _, he⟩ := exists_of_forall₂_of_mem hadded hm
        obtain ⟨source, hs⟩ := h.exists_source (hmembers.values.mpr hvalues m hm) he
        exact ⟨(m.1, source), rfl, hs⟩
      obtain ⟨sources, hsources⟩ := exists_forall₂ hsource
      exact ⟨⟨sources⟩, members, hsources, membersText_of_spelled hmembers hobject⟩

end Map

end NameMap

namespace Json

theorem exists_perm_of_keys {κ : Type} {f : α → κ} {g : β → κ} {R : α → β → Prop} {xs : List α}
    (hxs : (xs.map f).Nodup) {ys : List β} (hys : (ys.map g).Nodup)
    (h : ∀ y ∈ ys, ∃ x ∈ xs, f x = g y ∧ R x y) :
    ∃ found left, (found ++ left).Perm xs ∧
      List.Forall₂ (fun x y => f x = g y ∧ R x y) found ys ∧ ∀ x ∈ left, f x ∉ ys.map g := by
  induction ys generalizing xs with
  | nil => exact ⟨[], xs, .refl xs, .nil, by simp⟩
  | cons y ys ih =>
    rw [List.forall_mem_cons] at h
    obtain ⟨⟨x, hx, hkey, hR⟩, hothers⟩ := h
    obtain ⟨before, after, rfl⟩ := List.append_of_mem hx
    rw [List.map_cons, List.nodup_cons] at hys
    rw [List.map_append, List.map_cons, List.nodup_middle, List.nodup_cons,
      ← List.map_append] at hxs
    have hrest : ∀ y' ∈ ys, ∃ x' ∈ before ++ after, f x' = g y' ∧ R x' y' := by
      intro y' hy'
      obtain ⟨x', hx', hkey', hR'⟩ := hothers y' hy'
      rw [List.perm_middle.mem_iff, List.mem_cons] at hx'
      obtain rfl | hx' := hx'
      . rw [← hkey, hkey'] at hys
        exact absurd (List.mem_map_of_mem hy') hys.1
      . exact ⟨x', hx', hkey', hR'⟩
    obtain ⟨found, left, hperm, hfound, hleft⟩ := ih hxs.2 hys.2 hrest
    refine ⟨x :: found, left, (hperm.cons x).trans List.perm_middle.symm,
      .cons ⟨hkey, hR⟩ hfound, ?_⟩
    intro x' hx'
    rw [List.map_cons, List.mem_cons, ← hkey]
    rintro (heq | hmem)
    . have hx'' := hperm.mem_iff.mp (List.mem_append_right found hx')
      rw [← heq] at hxs
      exact hxs.1 (List.mem_map_of_mem hx'')
    . exact hleft x' hx' hmem

structure Field.Covered (depth : Nat) (field : Field α) (family : Part → Prop) : Prop where
  key : ∀ p, family p → p.key = field.key
  present : ∀ {text : List Char} {set : α → α}, ValueSyntax text →
    field.read.alone depth text = .ok set → ∃ p, family p ∧ p.Allows text
  absent : field.required = false → ∃ p, family p ∧ p.absent

section Field

variable {γ : Type} {read : Reader β} {text : γ → Nat → List Char → Prop} {depth : Nat}
  {key : String}

theorem Field.Covered.mandatory (h : read.Covered text) {set : β → α → α} :
    Field.Covered depth (.mandatory key read set)
      fun p => ∃ s, p = .mandatory key (text s depth) where
  key := by
    rintro _ ⟨s, rfl⟩
    rfl
  present := by
    intro inner set' hinner hread
    obtain ⟨b, hb⟩ := Reader.exists_of_alone_map hread
    obtain ⟨s, hs⟩ := h.exists_source hinner hb
    exact ⟨_, ⟨s, rfl⟩, .inl hs⟩
  absent := by
    intro hrequired
    contradiction

theorem Field.Covered.optional (hlocal : read.Local) (h : read.Covered text)
    {set : Option β → α → α} :
    Field.Covered depth (.defaulted key (Reader.optional read) set)
      fun p => ∃ s, p = .optional key (fun s => text s depth) s where
  key := by
    rintro _ ⟨s, rfl⟩
    rfl
  present := by
    intro inner set' hinner hread
    by_cases hnull : inner.head? = some 'n'
    . exact ⟨_, ⟨none, rfl⟩, .inr ⟨rfl, hinner.eq_null hnull⟩⟩
    . obtain ⟨_, hpart⟩ := Reader.exists_of_alone_map hread
      obtain ⟨b, hb⟩ := Reader.exists_of_alone_optional hlocal hinner hnull hpart
      obtain ⟨s, hs⟩ := h.exists_source hinner hb
      exact ⟨_, ⟨some s, rfl⟩, .inl ⟨s, rfl, hs⟩⟩
  absent _ := ⟨_, ⟨none, rfl⟩, rfl⟩

theorem Field.Covered.bucket (hlocal : read.Local) (h : read.Covered text)
    {set : Option (NameMap β) → α → α} :
    Field.Covered depth (.defaulted key (Reader.optional (NameMap.reader read)) set)
      fun p => ∃ s : Option (NameMap γ), p = .optional key (fun m => m.Text text depth) s :=
  .optional hlocal.nameMap (NameMap.covered hlocal h)

end Field

section Record

variable {r : Record α} {depth : Nat} {fields : List (Field α)} {families : List (Part → Prop)}

theorem exists_parts (h : List.Forall₂ (Field.Covered depth) fields families) {Q : Part → Prop}
    (hpart : ∀ field ∈ fields, ∀ {family}, Field.Covered depth field family →
      ∃ p, family p ∧ Q p) :
    ∃ parts, List.Forall₂ (fun family p => family p) families parts ∧
      parts.map (·.key) = fields.map (·.key) ∧ ∀ p ∈ parts, Q p := by
  induction h with
  | nil => exact ⟨[], .nil, rfl, by simp⟩
  | cons hcovered _ ih =>
    rw [List.forall_mem_cons] at hpart
    obtain ⟨p, hp, hQ⟩ := hpart.1 hcovered
    obtain ⟨parts, hparts, hkeys, hall⟩ := ih hpart.2
    refine ⟨p :: parts, .cons hp hparts, ?_, ?_⟩
    . rw [List.map_cons, List.map_cons, hkeys, hcovered.key p hp]
    . rw [List.forall_mem_cons]
      exact ⟨hQ, hall⟩

theorem exists_recordItems (h : List.Forall₂ (Field.Covered depth) fields families)
    {items : List (List Char)} (hitems : ∀ item ∈ items, ValueSyntax item) {index : Nat}
    {value a : α} (hread : r.takeItems depth fields index value items = .ok a) :
    ∃ parts, List.Forall₂ (fun family p => family p) families parts ∧
      RecordItems parts items := by
  induction h generalizing items index value with
  | nil =>
    cases items with
    | nil => exact ⟨[], .nil, .cut (by simp)⟩
    | cons item items => contradiction
  | @cons field family fields families hcovered hfamilies ih =>
    cases items with
    | nil =>
      rw [Record.takeItems] at hread
      split at hread
      . contradiction
      . next hnone =>
        rw [List.findIdx?_eq_none_iff] at hnone
        obtain ⟨parts, hparts, _, habsent⟩ := exists_parts (.cons hcovered hfamilies)
          fun field hfield _ hcovered => hcovered.absent (hnone field hfield)
        exact ⟨parts, hparts, .cut habsent⟩
    | cons item items =>
      rw [List.forall_mem_cons] at hitems
      rw [Record.takeItems, bind_eq_ok_iff] at hread
      obtain ⟨set, hset, hread⟩ := hread
      obtain ⟨p, hp, hallows⟩ := hcovered.present hitems.1 hset
      obtain ⟨parts, hparts, hrest⟩ := ih hitems.2 hread
      exact ⟨p :: parts, .cons hp hparts, .cons hallows hrest⟩

end Record

namespace Record

variable {r : Record α} {depth : Nat} {families : List (Part → Prop)}

def ownMembers (r : Record α) (members : List (String × List Char)) : List (String × List Char) :=
  members.filter fun m => (r.fields.map (·.key)).contains m.1

theorem seen_of_takeAlone {progress next : Progress α} {key : String} {text : List Char}
    (h : r.takeAlone depth progress key text = .ok next) :
    key ∉ r.fields.map (·.key) ∧ next = progress ∨
      key ∈ r.fields.map (·.key) ∧ key ∉ progress.seen ∧ next.seen = key :: progress.seen := by
  unfold takeAlone at h
  split at h
  . next hfind =>
    left
    refine ⟨?_, (Except.ok.inj h).symm⟩
    rw [List.find?_eq_none] at hfind
    rw [List.mem_map]
    rintro ⟨field, hfield, hkey⟩
    exact hfind field hfield (beq_iff_eq.mpr hkey)
  . next field hfind =>
    right
    split at h
    . contradiction
    . next hseen =>
      rw [bind_eq_ok_iff] at h
      obtain ⟨set, _, h⟩ := h
      obtain rfl := Except.ok.inj h
      rw [List.contains_iff_mem] at hseen
      have hkey := List.find?_some hfind
      rw [beq_iff_eq] at hkey
      rw [← hkey] at hseen ⊢
      exact ⟨List.mem_map_of_mem (List.mem_of_find?_eq_some hfind), hseen, rfl⟩

theorem seen_of_members {members : List (String × List Char)} {progress last : Progress α}
    (hseen : progress.seen.Nodup)
    (h : members.foldlM (fun progress m => r.takeAlone depth progress m.1 m.2) progress =
      .ok last) :
    last.seen.Nodup ∧
      last.seen = ((r.ownMembers members).map (·.1)).reverse ++ progress.seen := by
  induction members generalizing progress with
  | nil =>
    obtain rfl := Except.ok.inj h
    exact ⟨hseen, rfl⟩
  | cons m members ih =>
    rw [List.foldlM_cons, bind_eq_ok_iff] at h
    obtain ⟨next, hnext, h⟩ := h
    unfold ownMembers at ih ⊢
    obtain ⟨hkey, rfl⟩ | ⟨hkey, hnew, hcons⟩ := seen_of_takeAlone hnext
    . rw [List.filter_cons_of_neg (by rwa [List.contains_iff_mem])]
      exact ih hseen h
    . rw [List.filter_cons_of_pos (by rwa [List.contains_iff_mem])]
      have hseen' := List.nodup_cons.mpr ⟨hnew, hseen⟩
      rw [← hcons] at hseen'
      obtain ⟨hnodup, heq⟩ := ih hseen' h
      refine ⟨hnodup, ?_⟩
      rw [heq, hcons, List.map_cons, List.reverse_cons, List.append_assoc, List.singleton_append]

theorem mem_seen_of_finish {last : Progress α} {a : α} (h : r.finish last = .ok a) :
    ∀ field ∈ r.fields, field.required = true → field.key ∈ last.seen := by
  intro field hfield hrequired
  unfold finish missing? at h
  split at h
  . contradiction
  . next hnone =>
    rw [Option.map_eq_none_iff, List.find?_eq_none] at hnone
    simpa [hrequired] using hnone field hfield

theorem recordMembers_of_parts {parts : List Part} {members : List (String × List Char)}
    (hparts : (parts.map (·.key)).Nodup)
    (hmembers : ((members.filter fun m => (parts.map (·.key)).contains m.1).map (·.1)).Nodup)
    (hvalues : ∀ m ∈ members, ValueSyntax m.2)
    (h : ∀ p ∈ parts, (∃ m ∈ members, p.key = m.1 ∧ p.Allows m.2) ∨
      p.key ∉ members.map (·.1) ∧ p.absent) : RecordMembers parts members where
  own := by
    have hown : ∀ p ∈ parts, ∀ m ∈ members, p.key = m.1 →
        m ∈ members.filter fun m => (parts.map (·.key)).contains m.1 := by
      intro p hp m hm hkey
      rw [List.mem_filter, List.contains_iff_mem, ← hkey]
      exact ⟨hm, List.mem_map_of_mem hp⟩
    have hfound : ∀ m ∈ members.filter fun m => (parts.map (·.key)).contains m.1,
        ∃ p ∈ parts, p.key = m.1 ∧ p.Allows m.2 := by
      intro m hm
      obtain ⟨hm', hcontains⟩ := List.mem_filter.mp hm
      rw [List.contains_iff_mem, List.mem_map] at hcontains
      obtain ⟨p, hp, hkey⟩ := hcontains
      obtain ⟨m', hm'', hkey', hallows⟩ | ⟨hnone, _⟩ := h p hp
      . obtain rfl := List.inj_on_of_nodup_map hmembers hm (hown p hp m' hm'' hkey')
          (hkey.symm.trans hkey')
        exact ⟨p, hp, hkey, hallows⟩
      . rw [hkey] at hnone
        exact absurd (List.mem_map_of_mem hm') hnone
    obtain ⟨found, left, hperm, hfound, hleft⟩ := exists_perm_of_keys hparts hmembers hfound
    refine ⟨found, left, hperm, ?_, hfound⟩
    intro p hp
    have hp' := hperm.mem_iff.mp (List.mem_append_right _ hp)
    obtain ⟨m, hm, hkey, _⟩ | ⟨_, habsent⟩ := h p hp'
    . have hnone := hleft p hp
      rw [hkey] at hnone
      exact absurd (List.mem_map_of_mem (hown p hp' m hm hkey)) hnone
    . exact habsent
  others m hm _ := hvalues m hm

theorem exists_recordMembers (hnodup : (r.fields.map (·.key)).Nodup)
    (h : List.Forall₂ (Field.Covered depth) r.fields families)
    {members : List (String × List Char)} (hvalues : ∀ m ∈ members, ValueSyntax m.2)
    {last : Progress α} {a : α} (hfinish : r.finish last = .ok a)
    (hread : members.foldlM (fun progress m => r.takeAlone depth progress m.1 m.2) ⟨[], r.blank⟩ =
      .ok last) :
    ∃ parts, List.Forall₂ (fun family p => family p) families parts ∧
      RecordMembers parts members := by
  obtain ⟨hseen, heq⟩ := seen_of_members List.nodup_nil hread
  rw [List.append_nil] at heq
  have hpart : ∀ field ∈ r.fields, ∀ {family}, Field.Covered depth field family →
      ∃ p, family p ∧ ((∃ m ∈ members, p.key = m.1 ∧ p.Allows m.2) ∨
        p.key ∉ members.map (·.1) ∧ p.absent) := by
    intro field hfield family hcovered
    by_cases hmem : field.key ∈ members.map (·.1)
    . obtain ⟨m, hm, hkey⟩ := List.mem_map.mp hmem
      obtain ⟨_, _, hstep⟩ := exists_of_foldlM_eq_ok hread m hm
      rw [hkey] at hstep
      obtain ⟨set, hset⟩ := alone_of_takeAlone hnodup hfield hstep
      obtain ⟨p, hp, hallows⟩ := hcovered.present (hvalues m hm) hset
      exact ⟨p, hp, .inl ⟨m, hm, (hcovered.key p hp).trans hkey.symm, hallows⟩⟩
    . have hrequired : field.required = false := by
        rw [← Bool.not_eq_true]
        intro hrequired
        have hkey := mem_seen_of_finish hfinish field hfield hrequired
        rw [heq, List.mem_reverse] at hkey
        exact hmem (List.map_subset _ (List.filter_subset_self _) hkey)
      obtain ⟨p, hp, habsent⟩ := hcovered.absent hrequired
      rw [← hcovered.key p hp] at hmem
      exact ⟨p, hp, .inr ⟨hmem, habsent⟩⟩
  obtain ⟨parts, hparts, hkeys, hall⟩ := exists_parts h hpart
  rw [heq, List.nodup_reverse] at hseen
  unfold ownMembers at hseen
  rw [← hkeys] at hnodup hseen
  exact ⟨parts, hparts, recordMembers_of_parts hnodup hseen hvalues hall⟩

theorem exists_recordText (hfields : ∀ field ∈ r.fields, field.read.Local)
    (hnodup : (r.fields.map (·.key)).Nodup) {families : Nat → List (Part → Prop)}
    (h : ∀ depth, List.Forall₂ (Field.Covered depth) r.fields (families depth))
    {text : List Char} (htext : ValueSyntax text) {a : α}
    (hread : r.read.alone depth text = .ok a) :
    ∃ inner parts, List.Forall₂ (fun family p => family p) (families inner) parts ∧
      ∀ {parts' : Nat → List Part}, parts' inner = parts → RecordText parts' depth text := by
  cases htext.alike depth with
  | scalar h => exact absurd hread (Reader.alone_ne_ok_of_mismatch (read_of_scalar h depth []))
  | @array inner _ items _ hitems harray =>
    have hvalues := fun item hitem => (hitems item hitem).valueSyntax
    rw [(array_makes hfields hvalues harray).alone] at hread
    obtain ⟨parts, hparts, hrecord⟩ := exists_recordItems (h inner) hvalues hread
    refine ⟨inner, parts, hparts, ?_⟩
    rintro _ rfl
    exact .inr ⟨items, hrecord, harray⟩
  | @object inner _ ms _ hkeys hvalues hobject =>
    have hvalues' := fun m hm => (hvalues m hm).valueSyntax
    rw [(object_makes hfields hkeys hvalues' hobject).alone, bind_eq_ok_iff] at hread
    obtain ⟨last, hlast, hfinish⟩ := hread
    obtain ⟨members, hmembers⟩ := NameMap.exists_spelled hkeys hlast
    rw [NameMap.foldlM_takeMember hmembers] at hlast
    obtain ⟨parts, hparts, hrecord⟩ :=
      exists_recordMembers hnodup (h inner) (hmembers.values.mpr hvalues') hfinish hlast
    refine ⟨inner, parts, hparts, ?_⟩
    rintro _ rfl
    exact .inl ⟨members, hrecord, NameMap.membersText_of_spelled hmembers hobject⟩
  | deepArray _ harray =>
    obtain ⟨_, _, rfl⟩ := harray
    contradiction
  | deepObject _ _ hobject =>
    obtain ⟨_, _, _, _, rfl⟩ := hobject
    contradiction

end Record

end Json

end SchemaMigration
