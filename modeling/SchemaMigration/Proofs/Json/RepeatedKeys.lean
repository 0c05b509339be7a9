import SchemaMigration.Proofs.Json.LocalReaders
import SchemaMigration.Proofs.Json.RecordText

/-!
This module contains that an object which has a key of its record twice is not read. The reader
passes over every member as the machine that skips values does, so it comes to the second of them,
where the key has been seen.
-/

namespace SchemaMigration.Json

open Lexeme

theorem StringText.unique {s s' : String} {text : List Char} (h : StringText s text)
    (h' : StringText s' text) : s = s' := by
  obtain ⟨body, rfl, hbody⟩ := h.stringBody
  obtain ⟨body', heq, hbody'⟩ := h'.stringBody
  rw [List.cons.injEq] at heq
  have hread := hbody []
  rw [heq.2, hbody' [], Except.ok.injEq, Prod.mk.injEq] at hread
  exact hread.1.symm

theorem Reader.key_member {m : List Char × List Char} (hkey : StringSyntax m.1) {item : List Char}
    (hitem : MemberText m item) {rest : List Char} {next : NextMember}
    (h : Reader.key (item ++ rest) = .ok next) :
    ∃ k cs, next = .key k cs ∧ StringText k m.1 ∧
      ∃ space, colon cs = .ok (space ++ (m.2 ++ rest)) ∧ space.all isSpace := by
  obtain ⟨after, before, hafter, hbefore, rfl⟩ := hitem
  simp only [List.append_assoc, List.cons_append] at h
  rw [key_text hkey] at h
  cases hread : Reader.string.alone 0 m.1 with
  | error e =>
    rw [hread] at h
    contradiction
  | ok k =>
    rw [hread] at h
    obtain rfl := Except.ok.inj h
    exact ⟨k, _, rfl, stringText_of_alone hkey hread, before, colon_space hafter _, hbefore⟩

namespace Record

variable {r : Record α} {depth : Nat}

structure Once (k : String) (seen : List String) (members : List (List Char × List Char)) :
    Prop where
  unseen : k ∈ seen → ∀ m ∈ members, ¬ StringText k m.1
  pairwise : members.Pairwise fun m m' => StringText k m.1 → ¬ StringText k m'.1

theorem Once.nil (k : String) (seen : List String) : Once k seen [] where
  unseen := by simp
  pairwise := .nil

theorem Once.cons {k : String} {seen seen' : List String} {m : List Char × List Char}
    {members : List (List Char × List Char)} (h : Once k seen' members)
    (hseen : ∀ key ∈ seen, key ∈ seen') (hm : StringText k m.1 → k ∉ seen ∧ k ∈ seen') :
    Once k seen (m :: members) where
  unseen := by
    intro hk
    rw [List.forall_mem_cons]
    exact ⟨fun htext => (hm htext).1 hk, h.unseen (hseen k hk)⟩
  pairwise := by
    rw [List.pairwise_cons]
    exact ⟨fun m' hm' htext => h.unseen (hm htext).2 m' hm', h.pairwise⟩

theorem seen_of_member {progress progress' : Progress α} {key : String} {cs rest : List Char}
    (h : r.member depth progress key cs = .ok (progress', rest)) :
    (∀ k ∈ progress.seen, k ∈ progress'.seen) ∧
      (key ∈ r.fields.map (·.key) → key ∉ progress.seen ∧ key ∈ progress'.seen) := by
  unfold member at h
  split at h
  . next hfind =>
    simp only [bind_eq_ok_iff, Except.ok.injEq, Prod.mk.injEq] at h
    obtain ⟨_, _, _, _, rfl, _⟩ := h
    refine ⟨fun k hk => hk, ?_⟩
    intro hkey
    rw [List.mem_map] at hkey
    obtain ⟨field, hfield, rfl⟩ := hkey
    rw [List.find?_eq_none] at hfind
    simpa using hfind field hfield
  . split at h
    . contradiction
    . next hseen =>
      simp only [bind_eq_ok_iff, Except.ok.injEq, Prod.mk.injEq] at h
      obtain ⟨_, _, _, _, rfl, _⟩ := h
      rw [List.contains_iff_mem] at hseen
      refine ⟨fun k hk => List.mem_cons_of_mem _ hk, fun _ => ⟨hseen, List.mem_cons_self⟩⟩

theorem rest_of_member (hfields : ∀ field ∈ r.fields, field.read.Agrees)
    {progress progress' : Progress α} {key : String} {cs space text rest rest' : List Char}
    (hcolon : Reader.colon cs = .ok (space ++ (text ++ rest))) (hspace : space.all isSpace)
    (htext : ValueSyntax text) (hrest : EndsNumber rest)
    (h : r.member depth progress key cs = .ok (progress', rest')) : rest' = rest := by
  obtain ⟨cs', hcolon', hpasses⟩ := passes_of_member hfields h
  rw [hcolon, Except.ok.injEq] at hcolon'
  rw [← hcolon', ← Skip.value_eq_ok_iff] at hpasses
  have hsyntax := Skip.value_eq_ok_iff.mpr (Skip.passes_valueSyntax htext hspace hrest)
  rw [hpasses, Except.ok.injEq] at hsyntax
  exact hsyntax

theorem once_of_round (hfields : ∀ field ∈ r.fields, field.read.Agrees) {k : String}
    (hk : k ∈ r.fields.map (·.key)) {m : List Char × List Char} (hkey : StringSyntax m.1)
    (hvalue : ValueSyntax m.2) {item : List Char} (hitem : MemberText m item) {cs rest : List Char}
    (hrest : EndsNumber rest) {first : Bool}
    (hnext : Reader.nextMember first cs = Reader.key (item ++ rest)) {rounds : Nat}
    {progress : Progress α} {result : Progress α × List Char}
    (h : Reader.members (r.member depth) (rounds + 1) first progress cs = .ok result) :
    ∃ progress', Reader.members (r.member depth) rounds false progress' rest = .ok result ∧
      ∀ {members}, Once k progress'.seen members → Once k progress.seen (m :: members) := by
  simp only [Reader.members, hnext, bind_eq_ok_iff] at h
  obtain ⟨next, hread, h⟩ := h
  obtain ⟨key, cs', rfl, htext, space, hcolon, hspace⟩ := Reader.key_member hkey hitem hread
  simp only [bind_eq_ok_iff] at h
  obtain ⟨⟨progress', rest'⟩, hmember, h⟩ := h
  have hend := rest_of_member hfields hcolon hspace hvalue hrest hmember
  subst hend
  refine ⟨progress', h, ?_⟩
  intro members honce
  obtain ⟨hseen, hnew⟩ := seen_of_member hmember
  apply honce.cons hseen
  intro hm
  rw [hm.unique htext] at hk ⊢
  exact hnew hk

theorem once_behind (hfields : ∀ field ∈ r.fields, field.read.Agrees) {k : String}
    (hk : k ∈ r.fields.map (·.key)) {members : List (List Char × List Char)}
    (hkeys : ∀ m ∈ members, StringSyntax m.1) (hvalues : ∀ m ∈ members, ValueSyntax m.2)
    {items : List (List Char)} (hitems : List.Forall₂ MemberText members items)
    {tail : List Char} (htail : Behind '\x7d' items tail) {rounds : Nat}
    {progress : Progress α} {rest : List Char} {result : Progress α × List Char}
    (h : Reader.members (r.member depth) rounds false progress (tail ++ rest) = .ok result) :
    Once k progress.seen members := by
  induction hitems generalizing tail rounds progress with
  | nil => exact .nil k progress.seen
  | @cons m item members items hitem _ ih =>
    rw [List.forall_mem_cons] at hkeys hvalues
    cases htail with
    | cons hafter hbefore htail =>
      cases rounds with
      | zero => contradiction
      | succ rounds =>
        have hends := htail.endsNumber (by simp : EndsNumber ['\x7d']) rest
        simp only [List.append_assoc, List.cons_append] at h
        have hnext := Reader.nextMember_comma hafter hbefore (hitem.head hkeys.1)
        obtain ⟨progress', h, honce⟩ :=
          once_of_round hfields hk hkeys.1 hvalues.1 hitem hends (hnext _) h
        exact honce (ih hkeys.2 hvalues.2 htail h)

theorem once_of_objectBody (hfields : ∀ field ∈ r.fields, field.read.Agrees) {k : String}
    (hk : k ∈ r.fields.map (·.key)) {members : List (List Char × List Char)}
    (hkeys : ∀ m ∈ members, StringSyntax m.1) (hvalues : ∀ m ∈ members, ValueSyntax m.2)
    {items : List (List Char)} (hitems : List.Forall₂ MemberText members items)
    {inside : List Char} (hinside : Inside '\x7d' items inside)
    {progress : Progress α} {rest : List Char} {result : Progress α × List Char}
    (h : Reader.objectBody (r.member depth) progress (inside ++ rest) = .ok result) :
    Once k progress.seen members := by
  cases hitems with
  | nil => exact .nil k progress.seen
  | cons hitem hitems =>
    rw [List.forall_mem_cons] at hkeys hvalues
    cases hinside with
    | cons hbefore htail =>
      have hends := htail.endsNumber (by simp : EndsNumber ['\x7d']) rest
      simp only [Reader.objectBody, List.append_assoc] at h
      have hnext := Reader.nextMember_first hbefore (hitem.head hkeys.1)
      obtain ⟨progress', h, honce⟩ :=
        once_of_round hfields hk hkeys.1 hvalues.1 hitem hends (hnext _) h
      exact honce (once_behind hfields hk hkeys.2 hvalues.2 hitems htail h)

def Repeats (r : Record α) (text : List Char) : Prop :=
  ∃ members : List (List Char × List Char), (∀ m ∈ members, StringSyntax m.1) ∧
    (∀ m ∈ members, ValueSyntax m.2) ∧ ObjectText members text ∧
    ∃ m m', [m, m'].Sublist members ∧
      ∃ k ∈ r.fields.map (·.key), StringText k m.1 ∧ StringText k m'.1

/--
An object that has a key of the record twice is not read, neither as a whole document nor as any
part of one.
-/
structure RefusesRepeats (r : Record α) : Prop where
  read : ∀ {text : List Char}, r.Repeats text → ∀ (depth : Nat) {space : List Char},
    space.all isSpace → ∀ (rest : List Char) result,
      r.read depth (space ++ (text ++ rest)) ≠ .ok result
  document : ∀ {document : String}, DocumentText (fun _ => r.Repeats) document →
    ∀ a, Reader.document r.read document ≠ .ok a

theorem read_repeats (hfields : ∀ field ∈ r.fields, field.read.Agrees) {text : List Char}
    (htext : r.Repeats text) (depth : Nat) {space : List Char} (hspace : space.all isSpace)
    (rest : List Char) (result : α × List Char) :
    r.read depth (space ++ (text ++ rest)) ≠ .ok result := by
  intro hread
  obtain ⟨members, hkeys, hvalues, hobject, m, m', hrepeated, k, hk, hm, hm'⟩ := htext
  obtain ⟨items, inside, hitems, hinside, rfl⟩ := hobject
  unfold Record.read at hread
  rw [skipSpace_value hspace rfl] at hread
  simp only [List.cons_append] at hread
  rw [Reader.inside_eq_ok_iff] at hread
  obtain ⟨inner, _, hread⟩ := hread
  unfold ofObject at hread
  rw [bind_eq_ok_iff] at hread
  obtain ⟨⟨progress, cs⟩, hprogress, _⟩ := hread
  have honce := once_of_objectBody hfields hk hkeys hvalues hitems hinside hprogress
  exact List.pairwise_iff_forall_sublist.mp honce.pairwise hrepeated hm hm'

theorem refusesRepeats (hfields : ∀ field ∈ r.fields, field.read.Agrees) : r.RefusesRepeats where
  read := read_repeats hfields
  document := by
    rintro document ⟨before, text, after, hbefore, _, htext, rfl⟩ a hread
    unfold Reader.document at hread
    rw [String.toList_ofList, bind_eq_ok_iff] at hread
    obtain ⟨result, hread, _⟩ := hread
    exact read_repeats hfields htext maxDepth hbefore after result hread

end Record

end SchemaMigration.Json
