import SchemaMigration.Proofs.Json.Syntax
import SchemaMigration.Proofs.Json.Yield
import Mathlib.Logic.Relation

/-!
This module contains the skipping of values as a machine that takes one step after the other. It
passes over every text of a value, however deeply nested, and whatever a reader takes for a value
it passes over too, up to the same place.
-/

namespace SchemaMigration.Json

open Lexeme

namespace Lexeme

theorem length_skipSpace_le (cs : List Char) : (skipSpace cs).length ≤ cs.length :=
  List.length_dropWhile_le ..

theorem length_word {ws cs rest : List Char} (h : word ws cs = .ok rest) :
    rest.length ≤ cs.length := by
  induction ws generalizing cs with
  | nil =>
    rw [word, Except.ok.injEq] at h
    rw [h]
  | cons w ws ih =>
    cases cs with
    | nil => contradiction
    | cons c cs =>
      rw [word] at h
      split at h
      . have := ih h
        simp only [List.length_cons]
        omega
      . contradiction

theorem length_skipStringChars {n : Nat} {cs rest : List Char}
    (h : skipStringChars n cs = .ok rest) : rest.length < cs.length := by
  induction cs generalizing n with
  | nil => simp [skipStringChars] at h
  | cons c cs ih =>
    have hshorter : ∀ m, skipStringChars m cs = .ok rest → rest.length < (c :: cs).length := by
      intro m hm
      have := ih hm
      simp only [List.length_cons]
      omega
    unfold skipStringChars at h
    split at h
    . contradiction
    . next heq =>
      rw [List.cons.injEq] at heq
      rw [← heq.2] at h
      exact hshorter _ h
    . next heq =>
      rw [List.cons.injEq] at heq
      rw [Except.ok.injEq] at h
      rw [← h, ← heq.2]
      simp
    . next heq =>
      rw [List.cons.injEq] at heq
      rw [bind_eq_ok_iff] at h
      obtain ⟨size, _, h⟩ := h
      rw [← heq.2] at h
      exact hshorter _ h
    . next heq =>
      rw [List.cons.injEq] at heq
      split at h
      . contradiction
      . rw [← heq.2] at h
        exact hshorter _ h

theorem length_someDigits {cs ds rest : List Char} (h : someDigits cs = .ok (ds, rest)) :
    rest.length < cs.length := by
  unfold someDigits at h
  split at h
  . contradiction
  . next c cs =>
    split at h
    . next hc =>
      rw [Except.ok.injEq, Prod.mk.injEq] at h
      rw [← h.2, List.dropWhile_cons_of_pos hc, List.length_cons, Nat.lt_succ_iff]
      exact List.length_dropWhile_le ..
    . contradiction

theorem length_wholeDigits {cs ds rest : List Char} (h : wholeDigits cs = .ok (ds, rest)) :
    rest.length < cs.length := by
  unfold wholeDigits at h
  rw [bind_eq_ok_iff] at h
  obtain ⟨⟨ds', rest'⟩, hds, h⟩ := h
  dsimp only at h
  split at h
  . contradiction
  . rw [Except.ok.injEq, Prod.mk.injEq] at h
    rw [← h.2]
    exact length_someDigits hds

theorem length_fraction {cs rest : List Char} {f : Option (List Char)}
    (h : fraction cs = .ok (f, rest)) : rest.length ≤ cs.length := by
  unfold fraction at h
  split at h
  . rw [bind_eq_ok_iff] at h
    obtain ⟨⟨ds, rest'⟩, hds, h⟩ := h
    rw [Except.ok.injEq, Prod.mk.injEq] at h
    have := length_someDigits hds
    rw [← h.2, List.length_cons]
    omega
  . rw [Except.ok.injEq, Prod.mk.injEq] at h
    rw [h.2]

theorem length_exponentSign (cs : List Char) : (exponentSign cs).2.length ≤ cs.length := by
  unfold exponentSign
  split <;> simp

theorem length_exponent {cs rest : List Char} {e : Option (Bool × List Char)}
    (h : exponent cs = .ok (e, rest)) : rest.length ≤ cs.length := by
  cases cs with
  | nil =>
    simp only [exponent, Except.ok.injEq, Prod.mk.injEq] at h
    rw [h.2]
  | cons c cs =>
    by_cases hc : c = 'e' ∨ c = 'E'
    . rw [exponent_mark hc] at h
      obtain ⟨ds, hds, _⟩ := h
      have := length_someDigits hds
      have := length_exponentSign cs
      rw [List.length_cons]
      omega
    . unfold exponent at h
      split at h
      . simp_all
      . simp_all
      . rw [Except.ok.injEq, Prod.mk.injEq] at h
        rw [h.2]

theorem length_literal {cs rest : List Char} {l : Literal} (h : literal cs = .ok (l, rest)) :
    rest.length < cs.length := by
  unfold literal at h
  split at h
  next negative cs' hsign =>
    have hlength : cs'.length ≤ cs.length := by
      split at hsign
      . rw [Prod.mk.injEq] at hsign
        rw [← hsign.2, List.length_cons]
        omega
      . rw [Prod.mk.injEq] at hsign
        rw [hsign.2]
    simp only [bind_eq_ok_iff, Except.ok.injEq, Prod.mk.injEq] at h
    obtain ⟨⟨whole, rest₁⟩, hwhole, ⟨f, rest₂⟩, hf, ⟨e, rest₃⟩, he, _, hrest⟩ := h
    dsimp only at hf he hrest
    have := length_wholeDigits hwhole
    have := length_fraction hf
    have := length_exponent he
    rw [← hrest]
    omega

theorem length_skipNumber {cs rest : List Char} (h : skipNumber cs = .ok rest) :
    rest.length < cs.length := by
  unfold skipNumber at h
  split at h
  . next hl =>
    rw [Except.ok.injEq] at h
    rw [← h]
    exact length_literal hl
  . contradiction

end Lexeme

namespace Skip

structure State where
  place : Place
  outer : List Bracket
  text : List Char

inductive Step : State → State → Prop where
  | scalar {outer : List Bracket} {cs cs' : List Char} (h : head cs = .ok (none, cs')) :
      Step ⟨.value, outer, cs⟩ ⟨.closed, outer, cs'⟩
  | opening {outer : List Bracket} {cs cs' : List Char} {b : Bracket}
      (h : head cs = .ok (some b, cs')) : Step ⟨.value, outer, cs⟩ ⟨.opened, b :: outer, cs'⟩
  | closing {outer : List Bracket} {cs cs' : List Char} {b : Bracket} {place : Place}
      (hplace : place ≠ .value) (h : skipSpace cs = b.closing :: cs') :
      Step ⟨place, b :: outer, cs⟩ ⟨.closed, outer, cs'⟩
  | first {outer : List Bracket} {cs cs' cs'' : List Char} {b : Bracket} {c : Char}
      (h : skipSpace cs = c :: cs') (hc : c ≠ b.closing) (hnext : b.next (c :: cs') = .ok cs'') :
      Step ⟨.opened, b :: outer, cs⟩ ⟨.value, b :: outer, cs''⟩
  | comma {outer : List Bracket} {cs cs' cs'' : List Char} {b : Bracket}
      (h : skipSpace cs = ',' :: cs') (hnext : b.next cs' = .ok cs'') :
      Step ⟨.closed, b :: outer, cs⟩ ⟨.value, b :: outer, cs''⟩

abbrev Reaches : State → State → Prop := Relation.ReflTransGen Step

theorem Bracket.comma_ne_closing (b : Bracket) : ',' ≠ b.closing := by
  cases b <;> decide

theorem loop_of_step {s s' : State} (h : Step s s') (rounds : Nat) :
    loop (rounds + 1) s.place s.outer s.text = loop rounds s'.place s'.outer s'.text := by
  cases h with
  | scalar h => simp only [loop, h, bind, Except.bind]
  | opening h => simp only [loop, h, bind, Except.bind]
  | @closing outer cs cs' b place hplace h =>
    cases place with
    | value => contradiction
    | opened => simp [loop, h]
    | closed => simp [loop, h]
  | first h hc hnext => simp [loop, h, hc, hnext, bind, Except.bind]
  | @comma _ _ _ _ b h hnext =>
    have hc := b.comma_ne_closing
    simp [loop, h, hc, hnext, bind, Except.bind]

-- What is left of a document gets shorter, or an opening bracket is done with.
def State.potential (s : State) : Nat :=
  2 * s.text.length + match s.place with
    | .opened => 1
    | _ => 0

theorem length_head {cs cs' : List Char} {b : Option Bracket} (h : head cs = .ok (b, cs')) :
    cs'.length < cs.length := by
  have hspace := length_skipSpace_le cs
  have hrest : cs'.length < (skipSpace cs).length := by
    unfold head at h
    split at h
    case h_1 => contradiction
    case h_8 =>
      split at h
      . simp only [bind_eq_ok_iff, Except.ok.injEq, Prod.mk.injEq] at h
        obtain ⟨_, hrest, _, rfl⟩ := h
        have := length_skipNumber hrest
        simp_all
      . contradiction
    all_goals
      simp only [bind_eq_ok_iff, Except.ok.injEq, Prod.mk.injEq] at h
    case h_5 heq =>
      obtain ⟨_, hrest, _, rfl⟩ := h
      have := length_skipStringChars hrest
      rw [heq, List.length_cons]
      omega
    case h_6 heq => simp [heq, h.2]
    case h_7 heq => simp [heq, h.2]
    all_goals
      next heq =>
      obtain ⟨_, hrest, _, rfl⟩ := h
      have := length_word hrest
      rw [heq, List.length_cons]
      omega
  omega

theorem length_key {cs cs' : List Char} (h : key cs = .ok cs') : cs'.length ≤ cs.length := by
  have hspace := length_skipSpace_le cs
  unfold key at h
  split at h
  . contradiction
  . next rest heq =>
    rw [bind_eq_ok_iff] at h
    obtain ⟨rest', hrest, h⟩ := h
    have hspace' := length_skipSpace_le rest'
    have := length_skipStringChars hrest
    rw [heq, List.length_cons] at hspace
    split at h
    . contradiction
    . next heq' =>
      rw [Except.ok.injEq] at h
      rw [heq', List.length_cons, h] at hspace'
      omega
    . contradiction
  . contradiction

theorem length_next {b : Bracket} {cs cs' : List Char} (h : b.next cs = .ok cs') :
    cs'.length ≤ cs.length := by
  cases b with
  | list =>
    obtain rfl := Except.ok.inj h
    rfl
  | object => exact length_key h

theorem potential_of_step {s s' : State} (h : Step s s') : s'.potential < s.potential := by
  cases h with
  | scalar h =>
    have := length_head h
    simp only [State.potential]
    omega
  | opening h =>
    have := length_head h
    simp only [State.potential]
    omega
  | @closing _ cs cs' _ place _ h =>
    have hspace := length_skipSpace_le cs
    rw [h, List.length_cons] at hspace
    simp only [State.potential]
    omega
  | @first _ cs _ _ _ _ h _ hnext =>
    have hspace := length_skipSpace_le cs
    have := length_next hnext
    rw [h] at hspace
    simp only [State.potential]
    omega
  | @comma _ cs _ _ _ h hnext =>
    have hspace := length_skipSpace_le cs
    have := length_next hnext
    rw [h, List.length_cons] at hspace
    simp only [State.potential]
    omega

theorem loop_of_reaches {s s' : State} (h : Reaches s s') :
    ∃ n, n + s'.potential ≤ s.potential ∧ ∀ rounds,
      loop (rounds + n) s.place s.outer s.text = loop rounds s'.place s'.outer s'.text := by
  induction h using Relation.ReflTransGen.head_induction_on with
  | refl => exact ⟨0, by omega, fun _ => rfl⟩
  | head hstep _ ih =>
    obtain ⟨n, hn, hloop⟩ := ih
    have := potential_of_step hstep
    refine ⟨n + 1, by omega, ?_⟩
    intro rounds
    rw [← Nat.add_assoc, loop_of_step hstep, hloop]

def Passes (cs rest : List Char) : Prop :=
  ∀ outer, Reaches ⟨.value, outer, cs⟩ ⟨.closed, outer, rest⟩

theorem Step.append {s s' : State} (h : Step s s') (outer : List Bracket) :
    Step ⟨s.place, s.outer ++ outer, s.text⟩ ⟨s'.place, s'.outer ++ outer, s'.text⟩ := by
  cases h with
  | scalar h => exact .scalar h
  | opening h => exact .opening h
  | closing hplace h => exact .closing hplace h
  | first h hc hnext => exact .first h hc hnext
  | comma h hnext => exact .comma h hnext

theorem step_of_loop_inside {rounds : Nat} {place : Place} {b : Bracket} {outer : List Bracket}
    {cs rest : List Char} (hplace : place ≠ .value)
    (h : loop (rounds + 1) place (b :: outer) cs = .ok rest) :
    ∃ s', Step ⟨place, b :: outer, cs⟩ s' ∧ loop rounds s'.place s'.outer s'.text = .ok rest := by
  simp only [loop] at h
  split at h
  . contradiction
  . next c cs' hspace =>
    split at h
    . next hc =>
      rw [hc] at hspace
      exact ⟨_, .closing hplace hspace, h⟩
    . next hc =>
      split at h
      . next hopened =>
        rw [bind_eq_ok_iff] at h
        obtain ⟨cs'', hnext, h⟩ := h
        rw [hopened]
        exact ⟨_, .first hspace hc hnext, h⟩
      . next hopened =>
        split at h
        . next hcomma =>
          rw [bind_eq_ok_iff] at h
          obtain ⟨cs'', hnext, h⟩ := h
          rw [hcomma] at hspace
          cases place with
          | value => contradiction
          | opened => contradiction
          | closed => exact ⟨_, .comma hspace hnext, h⟩
        . contradiction

-- The machine ends only outside of all brackets.
theorem step_of_loop {rounds : Nat} {s : State} {rest : List Char}
    (h : loop (rounds + 1) s.place s.outer s.text = .ok rest) :
    (s.place ≠ .value ∧ s.outer = [] ∧ s.text = rest) ∨
      ∃ s', Step s s' ∧ loop rounds s'.place s'.outer s'.text = .ok rest := by
  obtain ⟨place, outer, cs⟩ := s
  by_cases hplace : place = .value
  . rw [hplace] at h ⊢
    simp only [loop, bind_eq_ok_iff] at h
    obtain ⟨⟨b, cs'⟩, hhead, h⟩ := h
    cases b with
    | none => exact .inr ⟨_, .scalar hhead, h⟩
    | some b => exact .inr ⟨_, .opening hhead, h⟩
  . cases outer with
    | nil =>
      have hend : loop (rounds + 1) place [] cs = .ok cs := by
        cases place with
        | value => contradiction
        | opened => rfl
        | closed => rfl
      rw [hend, Except.ok.injEq] at h
      exact .inl ⟨hplace, rfl, h⟩
    | cons b outer => exact .inr (step_of_loop_inside hplace h)

theorem reaches_of_loop {rounds : Nat} {s : State} {rest : List Char}
    (hopened : s.place = .opened → s.outer ≠ [])
    (h : loop rounds s.place s.outer s.text = .ok rest) (outer : List Bracket) :
    Reaches ⟨s.place, s.outer ++ outer, s.text⟩ ⟨.closed, outer, rest⟩ := by
  induction rounds generalizing s with
  | zero => simp [loop] at h
  | succ rounds ih =>
    cases step_of_loop h with
    | inl hend =>
      obtain ⟨hvalue, hnone, rfl⟩ := hend
      obtain ⟨place, outer', text⟩ := s
      dsimp only at *
      subst hnone
      cases place with
      | value => contradiction
      | opened => exact absurd rfl (hopened rfl)
      | closed => exact .refl
    | inr hstep =>
      obtain ⟨s', hstep, h⟩ := hstep
      refine .head (hstep.append outer) (ih ?_ h)
      cases hstep <;> simp

theorem value_eq_ok_iff {cs rest : List Char} : value cs = .ok rest ↔ Passes cs rest := by
  constructor
  . intro h outer
    exact reaches_of_loop (s := ⟨.value, [], cs⟩) (by simp) h outer
  . intro h
    obtain ⟨n, hn, hloop⟩ := loop_of_reaches (h [])
    simp only [State.potential] at hn
    obtain ⟨spare, hspare⟩ := Nat.exists_eq_add_of_le (show n + 1 ≤ 2 * cs.length + 2 by omega)
    have hrounds : 2 * cs.length + 2 = (spare + 1) + n := by omega
    unfold value
    rw [hrounds, hloop]
    rfl

theorem head_skipSpace (cs : List Char) : head (skipSpace cs) = head cs := by
  unfold head
  rw [skipSpace_skipSpace]

theorem Passes.of_skipSpace {cs rest : List Char} (h : Passes (skipSpace cs) rest) :
    Passes cs rest := by
  intro outer
  obtain heq | ⟨s, hstep, hreaches⟩ := (h outer).cases_head
  . simp at heq
  . refine .head ?_ hreaches
    cases hstep with
    | scalar h =>
      rw [head_skipSpace] at h
      exact .scalar h
    | opening h =>
      rw [head_skipSpace] at h
      exact .opening h
    | closing hplace _ => contradiction

theorem Passes.scalar {cs rest : List Char} (h : head cs = .ok (none, rest)) : Passes cs rest :=
  fun _ => .single (.scalar h)

theorem Passes.bracketed {cs cs' rest : List Char} {b : Bracket} (h : head cs = .ok (some b, cs'))
    (hinside : ∀ outer, Reaches ⟨.opened, b :: outer, cs'⟩ ⟨.closed, outer, rest⟩) :
    Passes cs rest :=
  fun outer => .head (.opening h) (hinside outer)

theorem Bracket.endsNumber_closing (b : Bracket) : EndsNumber [b.closing] := by
  cases b <;> simp [closing]

theorem Bracket.ne_closing (b : Bracket) {c : Char} {cs : List Char} (h : startsValue (c :: cs)) :
    c ≠ b.closing := by
  rintro rfl
  cases b <;> contradiction

structure Enters (b : Bracket) (item : List Char) : Prop where
  starts : startsValue item
  passes : ∀ {space rest : List Char}, space.all isSpace → EndsNumber rest →
    ∃ cs, b.next (space ++ (item ++ rest)) = .ok cs ∧ Passes cs rest

variable {b : Bracket} {items : List (List Char)}

theorem reaches_closing {space : List Char} (hspace : space.all isSpace) {place : Place}
    (hplace : place ≠ .value) (outer : List Bracket) (rest : List Char) :
    Reaches ⟨place, b :: outer, space ++ [b.closing] ++ rest⟩ ⟨.closed, outer, rest⟩ := by
  apply Relation.ReflTransGen.single
  apply Step.closing hplace
  rw [List.append_assoc, skipSpace_append hspace, List.singleton_append]
  apply skipSpace_cons
  cases b <;> rfl

theorem reaches_behind (hitems : ∀ item ∈ items, Enters b item) {tail : List Char}
    (h : Behind b.closing items tail) (outer : List Bracket) (rest : List Char) :
    Reaches ⟨.closed, b :: outer, tail ++ rest⟩ ⟨.closed, outer, rest⟩ := by
  induction h with
  | nil hspace => exact reaches_closing hspace (by decide) outer rest
  | @cons after before item tail items hafter hbefore htail ih =>
    rw [List.forall_mem_cons] at hitems
    have hends := htail.endsNumber b.endsNumber_closing rest
    obtain ⟨cs, hnext, hpasses⟩ := hitems.1.passes hbefore hends
    have hcomma : skipSpace (after ++ ',' :: (before ++ (item ++ tail)) ++ rest) =
        ',' :: (before ++ (item ++ (tail ++ rest))) := by
      rw [List.append_assoc, skipSpace_append hafter]
      simp only [List.cons_append, List.append_assoc]
      exact skipSpace_cons rfl _
    exact .head (.comma hcomma hnext) ((hpasses _).trans (ih hitems.2))

theorem reaches_inside (hitems : ∀ item ∈ items, Enters b item) {inside : List Char}
    (h : Inside b.closing items inside) (outer : List Bracket) (rest : List Char) :
    Reaches ⟨.opened, b :: outer, inside ++ rest⟩ ⟨.closed, outer, rest⟩ := by
  cases h with
  | nil hspace => exact reaches_closing hspace (by decide) outer rest
  | @cons before item tail items hbefore htail =>
    rw [List.forall_mem_cons] at hitems
    have hends := htail.endsNumber b.endsNumber_closing rest
    obtain ⟨cs, hnext, hpasses⟩ := @Enters.passes _ _ hitems.1 [] _ rfl hends
    have hspace : skipSpace (before ++ (item ++ tail) ++ rest) = item ++ (tail ++ rest) := by
      rw [List.append_assoc, List.append_assoc]
      exact skipSpace_value hbefore hitems.1.starts _
    cases item with
    | nil => exact absurd rfl (ne_nil_of_startsValue hitems.1.starts)
    | cons c item =>
      have hreaches := reaches_behind hitems.2 htail outer rest
      exact .head (.first hspace (b.ne_closing hitems.1.starts) hnext) ((hpasses _).trans hreaches)

theorem head_number {c : Char} {cs : List Char} (hc : c = '-' ∨ c.isDigit = true) :
    head (c :: cs) = skipNumber (c :: cs) >>= fun rest => .ok (none, rest) := by
  unfold head
  rw [skipSpace_cons (isSpace_eq_false_of_startsValue (startsValue_of_number hc cs))]
  split
  case h_8 heq =>
    rw [List.cons.injEq] at heq
    obtain ⟨rfl, rfl⟩ := heq
    rw [if_pos hc]
  all_goals simp_all

theorem head_null (cs : List Char) :
    head ('n' :: cs) = word ['u', 'l', 'l'] cs >>= fun rest => .ok (none, rest) := rfl

theorem head_true (cs : List Char) :
    head ('t' :: cs) = word ['r', 'u', 'e'] cs >>= fun rest => .ok (none, rest) := rfl

theorem head_false (cs : List Char) :
    head ('f' :: cs) = word ['a', 'l', 's', 'e'] cs >>= fun rest => .ok (none, rest) := rfl

theorem head_quote (cs : List Char) :
    head ('"' :: cs) = skipString cs >>= fun rest => .ok (none, rest) := rfl

theorem enters_list {item : List Char} (hstarts : startsValue item)
    (hpasses : ∀ {space rest : List Char}, space.all isSpace → EndsNumber rest →
      Passes (space ++ (item ++ rest)) rest) : Enters .list item where
  starts := hstarts
  passes := by
    intro space rest hspace hrest
    exact ⟨_, rfl, hpasses hspace hrest⟩

theorem key_text {key : List Char} (h : StringSyntax key) {space after : List Char}
    (hspace : space.all isSpace) (hafter : after.all isSpace) (rest : List Char) :
    Skip.key (space ++ (key ++ (after ++ ':' :: rest))) = .ok rest := by
  obtain ⟨body, rfl, hskip⟩ := h.skipString
  unfold Skip.key
  rw [skipSpace_value hspace rfl]
  simp only [List.cons_append]
  rw [hskip]
  simp only [bind, Except.bind]
  rw [skipSpace_append hafter, skipSpace_cons rfl]
  rfl

theorem enters_object {m : List Char × List Char} {item : List Char} (hkey : StringSyntax m.1)
    (hpasses : ∀ {space rest : List Char}, space.all isSpace → EndsNumber rest →
      Passes (space ++ (m.2 ++ rest)) rest) (h : MemberText m item) : Enters .object item := by
  obtain ⟨after, before, hafter, hbefore, rfl⟩ := h
  constructor
  . exact startsValue_append hkey.starts _
  . intro space rest hspace hrest
    refine ⟨before ++ (m.2 ++ rest), ?_, hpasses hbefore hrest⟩
    have hnext := key_text hkey hspace hafter (before ++ (m.2 ++ rest))
    simpa [Bracket.next] using hnext

theorem passes_valueSyntax {text : List Char} (h : ValueSyntax text) {space rest : List Char}
    (hspace : space.all isSpace) (hrest : EndsNumber rest) :
    Passes (space ++ (text ++ rest)) rest := by
  induction h generalizing space rest with
  | null =>
    apply Passes.of_skipSpace
    rw [skipSpace_value hspace rfl]
    exact Passes.scalar rfl
  | true =>
    apply Passes.of_skipSpace
    rw [skipSpace_value hspace rfl]
    exact Passes.scalar rfl
  | false =>
    apply Passes.of_skipSpace
    rw [skipSpace_value hspace rfl]
    exact Passes.scalar rfl
  | number h =>
    apply Passes.of_skipSpace
    rw [skipSpace_value hspace (ValueSyntax.number h).starts]
    obtain ⟨c, cs, htext, hc⟩ := h.head
    have hskip := h.skipNumber hrest
    rw [htext, List.cons_append] at hskip ⊢
    apply Passes.scalar
    rw [head_number hc, hskip]
    rfl
  | string h =>
    apply Passes.of_skipSpace
    rw [skipSpace_value hspace h.starts]
    obtain ⟨body, rfl, hskip⟩ := h.skipString
    apply Passes.scalar
    rw [List.cons_append, head_quote, hskip]
    rfl
  | @array items _ hitems h ih =>
    obtain ⟨inside, hinside, rfl⟩ := h
    apply Passes.of_skipSpace
    rw [skipSpace_value hspace rfl]
    have henters : ∀ item ∈ items, Enters .list item :=
      fun item hitem => enters_list (hitems item hitem).starts (ih item hitem)
    exact Passes.bracketed rfl fun outer => reaches_inside henters hinside outer rest
  | @object members _ hkeys hvalues h ih =>
    obtain ⟨items, inside, hmembers, hinside, rfl⟩ := h
    apply Passes.of_skipSpace
    rw [skipSpace_value hspace rfl]
    have henters : ∀ item ∈ items, Enters .object item := by
      clear hinside
      induction hmembers with
      | nil => simp
      | @cons m item members items hm _ ihm =>
        rw [List.forall_mem_cons] at hkeys hvalues ih ⊢
        exact ⟨enters_object hkeys.1 ih.1 hm, ihm hkeys.2 hvalues.2 ih.2⟩
    exact Passes.bracketed rfl fun outer => reaches_inside henters hinside outer rest

end Skip

end SchemaMigration.Json
