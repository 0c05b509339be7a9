import SchemaMigration.ChangeSet.Document
import SchemaMigration.Proofs.Json.Value
import SchemaMigration.Proofs.Sequence
import Mathlib.Data.List.DropRight

/-!
This module contains what is true of whatever is read, in any document: the values are in order, and
nothing is nested more deeply than the reader may go.
-/

namespace SchemaMigration.Json

open Lexeme

namespace Lexeme

theorem skipSpace_skipSpace (cs : List Char) : skipSpace (skipSpace cs) = skipSpace cs := by
  unfold skipSpace
  rw [List.dropWhile_idempotent]

theorem inRange_of_integer? {l : Literal} {i : Int} (h : l.integer? = some i) :
    (Number.integer i).InRange := by
  unfold Literal.integer? at h
  dsimp only at h
  unfold Number.InRange
  split at h
  . contradiction
  . split at h
    . split at h
      . rw [Option.some.injEq] at h
        omega
      . contradiction
    . split at h
      . rw [Option.some.injEq] at h
        omega
      . contradiction

theorem inRange_of_number {cs rest : List Char} {n : Number} (h : number cs = .ok (n, rest)) :
    n.InRange := by
  unfold number at h
  rw [bind_eq_ok_iff] at h
  obtain ⟨⟨l, rest'⟩, _, h⟩ := h
  unfold Literal.number? at h
  cases hl : l.integer? with
  | some i =>
    have hi := inRange_of_integer? hl
    simp only [hl, Except.ok.injEq, Prod.mk.injEq] at h
    rwa [← h.1]
  | none =>
    cases hfloat : l.float? with
    | some x =>
      simp only [hl, hfloat, Option.map_some, Except.ok.injEq, Prod.mk.injEq] at h
      rw [← h.1]
      trivial
    | none => simp [hl, hfloat] at h

end Lexeme

namespace Reader

/--
Whatever is read at some depth, a statement about that depth is true of it.
-/
structure Yields (read : Reader α) (P : Nat → α → Prop) : Prop where
  holds : ∀ {depth : Nat} {cs : List Char} {a : α} {rest : List Char},
    read depth cs = .ok (a, rest) → P depth a

theorem mismatch_ne_ok (expected : String) (cs : List Char) {r : α} :
    mismatch expected cs ≠ .ok r := by
  intro h
  unfold mismatch at h
  split at h
  case h_8 => split at h <;> simp [bind_eq_ok_iff] at h
  all_goals simp [bind_eq_ok_iff] at h

theorem forall_items {item : List Char → Except Error (α × List Char)} {P : α → Prop}
    (hitem : ∀ {cs a rest}, item cs = .ok (a, rest) → P a) {rounds : Nat} {first : Bool}
    {cs rest : List Char} {as : List α} (h : items item rounds first cs = .ok (as, rest)) :
    ∀ a ∈ as, P a := by
  induction rounds generalizing first cs as rest with
  | zero => contradiction
  | succ rounds ih =>
    unfold items at h
    rw [bind_eq_ok_iff] at h
    obtain ⟨next, _, h⟩ := h
    cases next with
    | closed rest' =>
      simp only [Except.ok.injEq, Prod.mk.injEq] at h
      simp [← h.1]
    | item cs' =>
      simp only [bind_eq_ok_iff] at h
      obtain ⟨⟨a, cs''⟩, ha, ⟨as', rest'⟩, has, h⟩ := h
      simp only [Except.ok.injEq, Prod.mk.injEq] at h
      rw [← h.1, List.forall_mem_cons]
      exact ⟨hitem ha, ih has⟩

theorem members_induction {step : σ → String → List Char → Except Error (σ × List Char)}
    {P : σ → Prop} (hstep : ∀ {s key cs s' rest}, P s → step s key cs = .ok (s', rest) → P s')
    {rounds : Nat} {first : Bool} {s s' : σ} {cs rest : List Char} (hs : P s)
    (h : members step rounds first s cs = .ok (s', rest)) : P s' := by
  induction rounds generalizing first s cs with
  | zero => contradiction
  | succ rounds ih =>
    unfold members at h
    rw [bind_eq_ok_iff] at h
    obtain ⟨next, _, h⟩ := h
    cases next with
    | closed rest' =>
      simp only [Except.ok.injEq, Prod.mk.injEq] at h
      rwa [← h.1]
    | key key cs' =>
      simp only [bind_eq_ok_iff] at h
      obtain ⟨⟨s'', cs''⟩, hs'', h⟩ := h
      exact ih (hstep hs hs'') h

inductive Shape (depth : Nat) (cs : List Char) : Json → Prop where
  | null {cs' : List Char} (h : cs = 'n' :: cs') : Shape depth cs .null
  | bool (b : Bool) : Shape depth cs (.bool b)
  | number {n : Number} (hrange : n.InRange) : Shape depth cs (.number n)
  | string (s : String) : Shape depth cs (.string s)
  | array {inner : Nat} {cs' rest : List Char} {items : List Json} (hdepth : depth = inner + 1)
      (hitems : arrayBody (value inner) cs' = .ok (items, rest)) : Shape depth cs (.array items)
  | object {inner : Nat} {cs' rest : List Char} {members : List (String × Json)}
      (hdepth : depth = inner + 1)
      (hmembers : objectBody (addMember inner) [] cs' = .ok (members, rest)) :
      Shape depth cs (.object members)

theorem shape_of_value {depth : Nat} {cs rest : List Char} {j : Json}
    (h : value depth cs = .ok (j, rest)) : Shape depth (skipSpace cs) j := by
  unfold value at h
  split at h
  case h_1 => contradiction
  case h_2 heq =>
    simp only [bind_eq_ok_iff, Except.ok.injEq, Prod.mk.injEq] at h
    obtain ⟨_, _, rfl, _⟩ := h
    exact .null heq
  case h_3 | h_4 =>
    simp only [bind_eq_ok_iff, Except.ok.injEq, Prod.mk.injEq] at h
    obtain ⟨_, _, rfl, _⟩ := h
    exact .bool _
  case h_5 =>
    simp only [bind_eq_ok_iff, Except.ok.injEq, Prod.mk.injEq] at h
    obtain ⟨_, _, rfl, _⟩ := h
    exact .string _
  case h_6 | h_7 => contradiction
  case h_8 =>
    simp only [bind_eq_ok_iff, Except.ok.injEq, Prod.mk.injEq] at h
    obtain ⟨_, hitems, rfl, _⟩ := h
    exact .array rfl hitems
  case h_9 =>
    simp only [bind_eq_ok_iff, Except.ok.injEq, Prod.mk.injEq] at h
    obtain ⟨_, hmembers, rfl, _⟩ := h
    exact .object rfl hmembers
  case h_10 =>
    split at h
    . simp only [bind_eq_ok_iff, Except.ok.injEq, Prod.mk.injEq] at h
      obtain ⟨_, hnumber, rfl, _⟩ := h
      exact .number (inRange_of_number hnumber)
    . contradiction

theorem addMember_spec {depth : Nat} {P : Json → Prop}
    (hvalue : ∀ {cs j rest}, value depth cs = .ok (j, rest) → P j)
    {members members' : List (String × Json)} {key : String} {cs rest : List Char}
    (hsorted : members.Pairwise (·.1 < ·.1)) (hmembers : ∀ m ∈ members, P m.2)
    (h : addMember depth members key cs = .ok (members', rest)) :
    members'.Pairwise (·.1 < ·.1) ∧ ∀ m ∈ members', P m.2 := by
  unfold addMember at h
  simp only [bind_eq_ok_iff, Except.ok.injEq, Prod.mk.injEq] at h
  obtain ⟨cs', _, ⟨j, rest'⟩, hj, rfl, _⟩ := h
  refine ⟨sorted_insertMember key j hsorted, ?_⟩
  intro m hm
  cases mem_insertMember hm with
  | inl hm =>
    rw [hm]
    exact hvalue hj
  | inr hm => exact hmembers m hm

theorem value_yields : Yields value fun depth j => j.Regular ∧ j.height ≤ depth := by
  constructor
  intro depth
  induction depth with
  | zero =>
    intro cs j rest h
    cases shape_of_value h with
    | null _ => exact ⟨.null, Nat.le_refl _⟩
    | bool b => exact ⟨.bool b, Nat.le_refl _⟩
    | number hrange => exact ⟨.number hrange, Nat.le_refl _⟩
    | string s => exact ⟨.string s, Nat.le_refl _⟩
    | array hdepth _ => contradiction
    | object hdepth _ => contradiction
  | succ depth ih =>
    intro cs j rest h
    cases shape_of_value h with
    | null _ => exact ⟨.null, Nat.zero_le _⟩
    | bool b => exact ⟨.bool b, Nat.zero_le _⟩
    | number hrange => exact ⟨.number hrange, Nat.zero_le _⟩
    | string s => exact ⟨.string s, Nat.zero_le _⟩
    | array hdepth hitems =>
      cases hdepth
      have hforall := forall_items ih hitems
      constructor
      . apply Regular.array
        intro item hitem
        exact (hforall item hitem).1
      . rw [height_array_le]
        intro item hitem
        exact (hforall item hitem).2
    | object hdepth hmembers =>
      cases hdepth
      have hinvariant := members_induction (P := fun members => members.Pairwise (·.1 < ·.1)
          ∧ ∀ m ∈ members, m.2.Regular ∧ m.2.height ≤ depth)
        (fun h => addMember_spec ih h.1 h.2) (by simp) hmembers
      constructor
      . apply Regular.object hinvariant.1
        intro m hm
        exact (hinvariant.2 m hm).1
      . rw [height_object_le]
        intro m hm
        exact (hinvariant.2 m hm).2

theorem string_yields : Yields string fun _ _ => True := ⟨by simp⟩

theorem Yields.mono {read : Reader α} {P Q : Nat → α → Prop} (h : read.Yields P)
    (hPQ : ∀ depth a, P depth a → Q depth a) : read.Yields Q := by
  constructor
  intro depth cs a rest hread
  exact hPQ depth a (h.holds hread)

theorem Yields.map {read : Reader α} {P : Nat → α → Prop} {Q : Nat → β → Prop} {f : α → β}
    (h : read.Yields P) (hf : ∀ {depth a}, P depth a → Q depth (f a)) :
    (Reader.map f read).Yields Q := by
  constructor
  intro depth cs b rest hread
  unfold Reader.map at hread
  simp only [bind_eq_ok_iff, Except.ok.injEq, Prod.mk.injEq] at hread
  obtain ⟨⟨a, rest'⟩, ha, rfl, _⟩ := hread
  exact hf (h.holds ha)

theorem Yields.optional {read : Reader α} {P : Nat → α → Prop} (h : read.Yields P) :
    (Reader.optional read).Yields fun depth o => ∀ a ∈ o, P depth a := by
  constructor
  intro depth cs o rest hread
  unfold Reader.optional at hread
  split at hread
  . simp only [bind_eq_ok_iff, Except.ok.injEq, Prod.mk.injEq] at hread
    obtain ⟨_, _, rfl, _⟩ := hread
    simp
  . simp only [bind_eq_ok_iff, Except.ok.injEq, Prod.mk.injEq] at hread
    obtain ⟨⟨a, rest'⟩, ha, rfl, _⟩ := hread
    simpa using h.holds ha

theorem optional_value_yields : (Reader.optional value).Yields fun depth o =>
    ∀ j ∈ o, j.Regular ∧ j.height ≤ depth ∧ j ≠ .null := by
  constructor
  intro depth cs o rest hread
  unfold Reader.optional at hread
  split at hread
  . simp only [bind_eq_ok_iff, Except.ok.injEq, Prod.mk.injEq] at hread
    obtain ⟨_, _, rfl, _⟩ := hread
    simp
  . next hother =>
    simp only [bind_eq_ok_iff, Except.ok.injEq, Prod.mk.injEq] at hread
    obtain ⟨⟨j, rest'⟩, hj, rfl, _⟩ := hread
    have hnull : j ≠ .null := by
      intro hnull
      rw [hnull] at hj
      cases shape_of_value hj with
      | null h =>
        rw [skipSpace_skipSpace] at h
        exact hother _ h
    obtain ⟨hregular, hheight⟩ := value_yields.holds hj
    simpa using ⟨hregular, hheight, hnull⟩

theorem inside_eq_ok_iff {depth : Nat} {body : Nat → Except Error α} {a : α} :
    inside depth body = .ok a ↔ ∃ inner, depth = inner + 1 ∧ body inner = .ok a := by
  cases depth <;> simp [inside]

theorem Yields.list {read : Reader α} {P : Nat → α → Prop} (h : read.Yields P) :
    (Reader.list read).Yields fun depth as => ∃ inner, depth = inner + 1 ∧ ∀ a ∈ as, P inner a := by
  constructor
  intro depth cs as rest hread
  unfold Reader.list at hread
  split at hread
  . rw [inside_eq_ok_iff] at hread
    obtain ⟨inner, hdepth, hread⟩ := hread
    exact ⟨inner, hdepth, forall_items h.holds hread⟩
  . exact absurd hread (mismatch_ne_ok _ _)

theorem Yields.nameMap {read : Reader α} {P : Nat → α → Prop} (h : read.Yields P) :
    (NameMap.reader read).Yields fun depth map =>
      ∃ inner, depth = inner + 1 ∧ map.names.Nodup ∧ ∀ e ∈ map.entries, P inner e.2 := by
  constructor
  intro depth cs map rest hread
  unfold NameMap.reader at hread
  split at hread
  . rw [inside_eq_ok_iff] at hread
    obtain ⟨inner, hdepth, hread⟩ := hread
    simp only [bind_eq_ok_iff, Except.ok.injEq, Prod.mk.injEq] at hread
    obtain ⟨⟨entries, rest'⟩, hentries, rfl, _⟩ := hread
    refine ⟨inner, hdepth, ?_⟩
    apply members_induction (P := fun entries => (entries.map (·.1)).Nodup ∧ ∀ e ∈ entries, P inner e.2)
      _ _ hentries
    . intro entries name cs entries' rest hbefore hmember
      unfold NameMap.member at hmember
      simp only [bind_eq_ok_iff] at hmember
      obtain ⟨cs', _, ⟨a, rest'⟩, ha, hmember⟩ := hmember
      split at hmember
      . contradiction
      . next hnew =>
        simp only [Except.ok.injEq, Prod.mk.injEq] at hmember
        rw [← hmember.1]
        constructor
        . rw [List.map_append, List.nodup_append]
          refine ⟨hbefore.1, by simp, ?_⟩
          intro n hn n' hn' heq
          rw [List.map_singleton, List.mem_singleton] at hn'
          rw [heq, hn', List.mem_map] at hn
          obtain ⟨e, he, hname⟩ := hn
          apply hnew
          rw [List.any_eq_true]
          exact ⟨e, he, by simpa using hname⟩
        . intro e he
          rw [List.mem_append, List.mem_singleton] at he
          cases he with
          | inl he => exact hbefore.2 e he
          | inr he =>
            rw [he]
            exact h.holds ha
    . simp
  . exact absurd hread (mismatch_ne_ok _ _)

end Reader

namespace Field

def Keeps (field : Field α) (P : Nat → α → Prop) : Prop :=
  field.read.Yields fun depth set => ∀ a, P depth a → P depth (set a)

variable {key : String} {read : Reader β} {set : β → α → α} {P : Nat → β → Prop}
  {Q : Nat → α → Prop}

theorem keeps_mandatory (h : read.Yields P)
    (hset : ∀ {depth : Nat} {b : β} {a : α}, P depth b → Q depth a → Q depth (set b a)) :
    (mandatory key read set).Keeps Q := by
  apply h.map
  intro depth b hb a ha
  exact hset hb ha

theorem keeps_defaulted (h : read.Yields P)
    (hset : ∀ {depth : Nat} {b : β} {a : α}, P depth b → Q depth a → Q depth (set b a)) :
    (defaulted key read set).Keeps Q := by
  apply h.map
  intro depth b hb a ha
  exact hset hb ha

end Field

namespace Record

variable {r : Record α} {P : α → Prop} {depth : Nat}

theorem member_spec (hfields : ∀ field ∈ r.fields, ∀ {cs set rest},
      field.read depth cs = .ok (set, rest) → ∀ a, P a → P (set a))
    {progress progress' : Progress α} {key : String} {cs rest : List Char} (hbefore : P progress.value)
    (h : r.member depth progress key cs = .ok (progress', rest)) : P progress'.value := by
  unfold member at h
  split at h
  . simp only [bind_eq_ok_iff, Except.ok.injEq, Prod.mk.injEq] at h
    obtain ⟨_, _, _, _, rfl, _⟩ := h
    exact hbefore
  . next field hfind =>
    split at h
    . contradiction
    . simp only [bind_eq_ok_iff, Except.ok.injEq, Prod.mk.injEq] at h
      obtain ⟨_, _, ⟨set, _⟩, hset, rfl, _⟩ := h
      exact hfields field (List.mem_of_find?_eq_some hfind) hset _ hbefore

theorem positional_spec {fields : List (Field α)} (hfields : ∀ field ∈ fields, ∀ {cs set rest},
      field.read depth cs = .ok (set, rest) → ∀ a, P a → P (set a))
    {index : Nat} {before a : α} {cs rest : List Char} (hbefore : P before)
    (h : r.positional depth fields index before cs = .ok (a, rest)) : P a := by
  induction fields generalizing index before cs with
  | nil =>
    unfold positional at h
    simp only [bind_eq_ok_iff, Except.ok.injEq, Prod.mk.injEq] at h
    obtain ⟨_, _, rfl, _⟩ := h
    exact hbefore
  | cons field fields ih =>
    unfold positional at h
    rw [bind_eq_ok_iff] at h
    obtain ⟨next, _, h⟩ := h
    cases next with
    | item cs' =>
      simp only [bind_eq_ok_iff] at h
      obtain ⟨⟨set, _⟩, hset, h⟩ := h
      apply ih _ _ h
      . intro field hfield
        exact hfields field (by simp [hfield])
      . exact hfields field (by simp) hset _ hbefore
    | closed rest' =>
      dsimp only at h
      split at h
      . contradiction
      . rw [Except.ok.injEq, Prod.mk.injEq] at h
        rwa [← h.1]

theorem yields {r : Record α} {P : Nat → α → Prop} (hblank : ∀ depth, P depth r.blank)
    (hfields : ∀ field ∈ r.fields, field.Keeps P) :
    r.read.Yields fun depth a => ∃ inner, depth = inner + 1 ∧ P inner a := by
  constructor
  intro depth cs a rest hread
  unfold read at hread
  split at hread
  . rw [Reader.inside_eq_ok_iff] at hread
    obtain ⟨inner, hdepth, hread⟩ := hread
    refine ⟨inner, hdepth, ?_⟩
    unfold ofObject at hread
    rw [bind_eq_ok_iff] at hread
    obtain ⟨⟨progress, rest'⟩, hprogress, hread⟩ := hread
    have hinvariant := Reader.members_induction (P := fun progress => P inner progress.value)
      (fun h => member_spec (fun field hfield => (hfields field hfield).holds) h) (hblank inner) hprogress
    dsimp only at hread
    split at hread
    . contradiction
    . rw [Except.ok.injEq, Prod.mk.injEq] at hread
      rwa [← hread.1]
  . rw [Reader.inside_eq_ok_iff] at hread
    obtain ⟨inner, hdepth, hread⟩ := hread
    refine ⟨inner, hdepth, ?_⟩
    exact positional_spec (fun field hfield => (hfields field hfield).holds) (hblank inner) hread
  . exact absurd hread (Reader.mismatch_ne_ok _ _)

end Record

end SchemaMigration.Json
