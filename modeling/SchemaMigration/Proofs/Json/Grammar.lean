import SchemaMigration.Proofs.Json.Agreement
import SchemaMigration.Proofs.Json.RecordText

/-!
This module contains that nothing is accepted but what follows the grammar: the machine that skips
values passes over texts of values only, and so a document that is read is the text of a value with
white space around it.
-/

namespace SchemaMigration.Json

open Lexeme

namespace Lexeme

theorem exists_space (cs : List Char) :
    ∃ space, space.all isSpace ∧ cs = space ++ skipSpace cs :=
  ⟨cs.takeWhile isSpace, List.all_takeWhile, List.takeWhile_append_dropWhile.symm⟩

theorem eq_append_of_word {ws cs rest : List Char} (h : word ws cs = .ok rest) :
    cs = ws ++ rest := by
  induction ws generalizing cs with
  | nil => exact Except.ok.inj h
  | cons w ws ih =>
    cases cs with
    | nil => contradiction
    | cons c cs =>
      rw [word] at h
      split at h
      . next heq => rw [heq, ih h, List.cons_append]
      . contradiction

theorem charSyntax_of_escapeSize {cs : List Char} {size : Nat} (h : escapeSize cs = .ok size) :
    ∃ part rest, '\\' :: cs = part ++ rest ∧ CharSyntax part ∧ part.length = size + 1 := by
  unfold escapeSize at h
  split at h
  . contradiction
  . rw [bind_eq_ok_iff] at h
    obtain ⟨unit, hunit, h⟩ := h
    obtain rfl := Except.ok.inj h
    obtain ⟨a, b, c, d, rest, rfl, hdigits⟩ := digits_of_codeUnit hunit
    exact ⟨['\\', 'u', a, b, c, d], rest, rfl, .unit (by simp [hdigits]), rfl⟩
  . next c rest _ =>
    split at h
    . next hshort =>
      obtain rfl := Except.ok.inj h
      exact ⟨['\\', c], rest, rfl, .short hshort, rfl⟩
    . contradiction

theorem skipStringChars_append (part rest : List Char) :
    skipStringChars part.length (part ++ rest) = skipStringChars 0 rest := by
  induction part with
  | nil => rfl
  | cons c part ih =>
    simp only [List.length_cons, List.cons_append, skipStringChars]
    exact ih

theorem parts_of_skipStringChars {cs rest : List Char} (h : skipStringChars 0 cs = .ok rest) :
    ∃ parts : List (List Char), (∀ part ∈ parts, CharSyntax part) ∧
      cs = parts.flatten ++ '"' :: rest := by
  induction hlength : cs.length using Nat.strongRecOn generalizing cs with
  | ind n ih =>
    -- The first part is gone over, and then the others.
    have hfirst : ∀ {part cs' : List Char}, CharSyntax part → cs = part ++ cs' →
        skipStringChars 0 cs' = .ok rest →
        ∃ parts : List (List Char), (∀ part ∈ parts, CharSyntax part) ∧
          cs = parts.flatten ++ '"' :: rest := by
      intro part cs' hpart hcs hskip
      have hlt : cs'.length < n := by
        have hsome : part.length ≠ 0 := by cases hpart <;> simp
        rw [← hlength, hcs, List.length_append]
        omega
      obtain ⟨parts, hparts, rfl⟩ := ih _ hlt hskip rfl
      refine ⟨part :: parts, ?_, ?_⟩
      . rw [List.forall_mem_cons]
        exact ⟨hpart, hparts⟩
      . rw [hcs, List.flatten_cons, List.append_assoc]
    unfold skipStringChars at h
    split at h
    . contradiction
    . contradiction
    . obtain rfl := Except.ok.inj h
      exact ⟨[], by simp, rfl⟩
    . rw [bind_eq_ok_iff] at h
      obtain ⟨size, hescape, hskip⟩ := h
      obtain ⟨part, cs', heq, hpart, hsize⟩ := charSyntax_of_escapeSize hescape
      refine hfirst hpart heq ?_
      cases part with
      | nil => contradiction
      | cons c part =>
        rw [List.cons_append, List.cons.injEq] at heq
        rw [List.length_cons, Nat.add_right_cancel_iff] at hsize
        rwa [heq.2, ← hsize, skipStringChars_append] at hskip
    . next c cs' hquote hbackslash _ =>
      split at h
      . contradiction
      . next hcontrol =>
        exact hfirst (.plain hquote hbackslash hcontrol) rfl h

theorem stringSyntax_of_skipString {cs rest : List Char} (h : skipString cs = .ok rest) :
    ∃ body, StringSyntax ('"' :: body) ∧ cs = body ++ rest := by
  obtain ⟨parts, hparts, rfl⟩ := parts_of_skipStringChars h
  refine ⟨parts.flatten ++ ['"'], ⟨parts, hparts, rfl⟩, ?_⟩
  rw [List.append_assoc, List.singleton_append]

theorem digits_of_someDigits {cs ds rest : List Char} (h : someDigits cs = .ok (ds, rest)) :
    Digits ds ∧ cs = ds ++ rest := by
  unfold someDigits at h
  split at h
  . contradiction
  . next c cs =>
    split at h
    . next hc =>
      rw [Except.ok.injEq, Prod.mk.injEq] at h
      obtain ⟨rfl, rfl⟩ := h
      refine ⟨⟨?_, ?_⟩, List.takeWhile_append_dropWhile.symm⟩
      . rw [List.takeWhile_cons_of_pos hc]
        simp
      . exact List.all_eq_true.mp List.all_takeWhile
    . contradiction

theorem digits_of_wholeDigits {cs ds rest : List Char} (h : wholeDigits cs = .ok (ds, rest)) :
    Digits ds ∧ (ds.head? = some '0' → ds = ['0']) ∧ cs = ds ++ rest := by
  unfold wholeDigits at h
  rw [bind_eq_ok_iff] at h
  obtain ⟨⟨ds', rest'⟩, hds, h⟩ := h
  dsimp only at h
  split at h
  . contradiction
  . next hzero =>
    rw [Except.ok.injEq, Prod.mk.injEq] at h
    obtain ⟨rfl, rfl⟩ := h
    obtain ⟨hdigits, heq⟩ := digits_of_someDigits hds
    refine ⟨hdigits, ?_, heq⟩
    intro hhead
    obtain ⟨tail, rfl⟩ := List.head?_eq_some_iff.mp hhead
    cases tail with
    | nil => rfl
    | cons d ds => exact absurd rfl (hzero d ds)

theorem fractionSyntax_of_fraction {cs rest : List Char} {f : Option (List Char)}
    (h : fraction cs = .ok (f, rest)) : ∃ text, FractionSyntax text ∧ cs = text ++ rest := by
  unfold fraction at h
  split at h
  . rw [bind_eq_ok_iff] at h
    obtain ⟨⟨ds, rest'⟩, hds, h⟩ := h
    rw [Except.ok.injEq, Prod.mk.injEq] at h
    obtain ⟨_, rfl⟩ := h
    obtain ⟨hdigits, rfl⟩ := digits_of_someDigits hds
    exact ⟨'.' :: ds, .present hdigits, rfl⟩
  . rw [Except.ok.injEq, Prod.mk.injEq] at h
    exact ⟨[], .absent, h.2⟩

theorem eq_append_exponentSign (cs : List Char) :
    ∃ sign ∈ [[], ['+'], ['-']], cs = sign ++ (exponentSign cs).2 := by
  unfold exponentSign
  split
  . exact ⟨['+'], by simp, rfl⟩
  . exact ⟨['-'], by simp, rfl⟩
  . exact ⟨[], by simp, rfl⟩

theorem exponentSyntax_of_exponent {cs rest : List Char} {e : Option (Bool × List Char)}
    (h : exponent cs = .ok (e, rest)) : ∃ text, ExponentSyntax text ∧ cs = text ++ rest := by
  by_cases hmark : ∃ c cs', cs = c :: cs' ∧ (c = 'e' ∨ c = 'E')
  . obtain ⟨c, cs', rfl, hc⟩ := hmark
    obtain ⟨ds, hds, _⟩ := (exponent_mark hc).mp h
    obtain ⟨sign, hsign, heq⟩ := eq_append_exponentSign cs'
    obtain ⟨hdigits, hrest⟩ := digits_of_someDigits hds
    refine ⟨c :: (sign ++ ds), .present hc hsign hdigits, ?_⟩
    rw [heq, hrest, List.cons_append, List.append_assoc]
  . unfold exponent at h
    split at h
    . exact absurd ⟨_, _, rfl, .inl rfl⟩ hmark
    . exact absurd ⟨_, _, rfl, .inr rfl⟩ hmark
    . rw [Except.ok.injEq, Prod.mk.injEq] at h
      exact ⟨[], .absent, h.2⟩

theorem numberSyntax_of_literal {cs rest : List Char} {l : Literal}
    (h : literal cs = .ok (l, rest)) : ∃ text, NumberSyntax text ∧ cs = text ++ rest := by
  unfold literal at h
  split at h
  next negative cs' hnegative =>
    have hsign : ∃ sign ∈ [[], ['-']], cs = sign ++ cs' := by
      split at hnegative
      . rw [Prod.mk.injEq] at hnegative
        exact ⟨['-'], by simp, by rw [hnegative.2, List.singleton_append]⟩
      . rw [Prod.mk.injEq] at hnegative
        exact ⟨[], by simp, by rw [hnegative.2, List.nil_append]⟩
    obtain ⟨sign, hsign, rfl⟩ := hsign
    simp only [bind_eq_ok_iff, Except.ok.injEq, Prod.mk.injEq] at h
    obtain ⟨⟨whole, behindWhole⟩, hwhole, ⟨f, behindFraction⟩, hf, ⟨e, behindExponent⟩, he, _,
      hrest⟩ := h
    obtain ⟨hdigits, hzero, hcs⟩ := digits_of_wholeDigits hwhole
    obtain ⟨fraction, hfraction, hbehind⟩ := fractionSyntax_of_fraction hf
    obtain ⟨exponent, hexponent, hbehind'⟩ := exponentSyntax_of_exponent he
    refine ⟨_, .mk hsign hdigits hzero hfraction hexponent, ?_⟩
    dsimp only at hbehind hbehind' hrest
    rw [hcs, hbehind, hbehind', hrest]
    simp only [List.append_assoc]

theorem numberSyntax_of_skipNumber {cs rest : List Char} (h : skipNumber cs = .ok rest) :
    ∃ text, NumberSyntax text ∧ cs = text ++ rest := by
  unfold skipNumber at h
  split at h
  . next hl =>
    obtain rfl := Except.ok.inj h
    exact numberSyntax_of_literal hl
  . contradiction

end Lexeme

namespace Skip

def Bracket.opening : Bracket → Char
  | .list => '['
  | .object => '\x7b'

-- What is gone over first is a whole value, or the bracket that opens one.
theorem eq_append_of_head {cs rest : List Char} {b : Option Bracket}
    (h : head cs = .ok (b, rest)) :
    ∃ text, skipSpace cs = text ++ rest ∧
      (b = none ∧ ValueSyntax text ∨ ∃ b', b = some b' ∧ text = [b'.opening]) := by
  unfold head at h
  split at h
  case h_1 => contradiction
  case h_8 heq =>
    split at h
    . simp only [bind_eq_ok_iff, Except.ok.injEq, Prod.mk.injEq] at h
      obtain ⟨_, hnumber, rfl, rfl⟩ := h
      obtain ⟨text, htext, hcs⟩ := numberSyntax_of_skipNumber hnumber
      exact ⟨text, heq.trans hcs, .inl ⟨rfl, .number htext⟩⟩
    . contradiction
  all_goals
    simp only [bind_eq_ok_iff, Except.ok.injEq, Prod.mk.injEq] at h
  case h_2 heq =>
    obtain ⟨_, hword, rfl, rfl⟩ := h
    rw [eq_append_of_word hword] at heq
    exact ⟨_, heq, .inl ⟨rfl, .null⟩⟩
  case h_3 heq =>
    obtain ⟨_, hword, rfl, rfl⟩ := h
    rw [eq_append_of_word hword] at heq
    exact ⟨_, heq, .inl ⟨rfl, .true⟩⟩
  case h_4 heq =>
    obtain ⟨_, hword, rfl, rfl⟩ := h
    rw [eq_append_of_word hword] at heq
    exact ⟨_, heq, .inl ⟨rfl, .false⟩⟩
  case h_5 heq =>
    obtain ⟨_, hstring, rfl, rfl⟩ := h
    obtain ⟨body, hbody, rfl⟩ := stringSyntax_of_skipString hstring
    exact ⟨_, heq, .inl ⟨rfl, .string hbody⟩⟩
  case h_6 heq =>
    obtain ⟨rfl, rfl⟩ := h
    exact ⟨['['], heq, .inr ⟨.list, rfl, rfl⟩⟩
  case h_7 heq =>
    obtain ⟨rfl, rfl⟩ := h
    exact ⟨['\x7b'], heq, .inr ⟨.object, rfl, rfl⟩⟩

def Bracket.Item : Bracket → List Char → Prop
  | .list, item => ValueSyntax item
  | .object, item => ∃ m, StringSyntax m.1 ∧ ValueSyntax m.2 ∧ MemberText m item

theorem Bracket.valueSyntax {b : Bracket} {items : List (List Char)} {inside : List Char}
    (hitems : ∀ item ∈ items, b.Item item) (h : Inside b.closing items inside) :
    ValueSyntax (b.opening :: inside) := by
  cases b with
  | list => exact .array hitems ⟨inside, h, rfl⟩
  | object =>
    obtain ⟨ms, hms⟩ := exists_forall₂ hitems
    have hkeys : ∀ m ∈ ms, StringSyntax m.1 := by
      intro m hm
      obtain ⟨_, _, hkey, _⟩ := exists_of_forall₂_of_mem hms.flip hm
      exact hkey
    have hvalues : ∀ m ∈ ms, ValueSyntax m.2 := by
      intro m hm
      obtain ⟨_, _, _, hvalue, _⟩ := exists_of_forall₂_of_mem hms.flip hm
      exact hvalue
    exact .object hkeys hvalues ⟨items, inside, hms.imp fun _ _ hm => hm.2.2, h, rfl⟩

theorem eq_append_of_key {cs rest : List Char} (h : key cs = .ok rest) :
    ∃ space name after, space.all isSpace ∧ StringSyntax name ∧ after.all isSpace ∧
      cs = space ++ (name ++ (after ++ ':' :: rest)) := by
  unfold key at h
  split at h
  . contradiction
  . next cs' hcs =>
    rw [bind_eq_ok_iff] at h
    obtain ⟨behind, hstring, h⟩ := h
    obtain ⟨body, hbody, rfl⟩ := stringSyntax_of_skipString hstring
    split at h
    . contradiction
    . next hbehind =>
      obtain rfl := Except.ok.inj h
      obtain ⟨space, hspace, heq⟩ := exists_space cs
      obtain ⟨after, hafter, heq'⟩ := exists_space behind
      refine ⟨space, _, after, hspace, hbody, hafter, ?_⟩
      rw [heq, hcs, heq', hbehind]
      rfl
    . contradiction
  . contradiction

theorem item_of_next {b : Bracket} {cs space text rest : List Char}
    (h : b.next cs = .ok (space ++ (text ++ rest))) (hspace : space.all isSpace)
    (htext : ValueSyntax text) :
    ∃ before item, before.all isSpace ∧ b.Item item ∧ cs = before ++ (item ++ rest) := by
  cases b with
  | list => exact ⟨space, text, hspace, htext, Except.ok.inj h⟩
  | object =>
    obtain ⟨before, name, after, hbefore, hname, hafter, rfl⟩ := eq_append_of_key h
    refine ⟨before, _, hbefore, ⟨(name, text), hname, htext, after, space, hafter, hspace, rfl⟩, ?_⟩
    simp only [List.append_assoc, List.cons_append]

inductive Closes (rest : List Char) : List Bracket → List Char → Prop where
  | nil : Closes rest [] rest
  | cons {b : Bracket} {outer : List Bracket} {items : List (List Char)} {tail cs : List Char}
      (hitems : ∀ item ∈ items, b.Item item) (htail : Behind b.closing items tail)
      (h : Closes rest outer cs) : Closes rest (b :: outer) (tail ++ cs)

inductive State.Sound (rest : List Char) : State → Prop where
  | value {outer : List Bracket} {space text cs : List Char} (hspace : space.all isSpace)
      (htext : ValueSyntax text) (h : Closes rest outer cs) :
      Sound rest ⟨.value, outer, space ++ (text ++ cs)⟩
  | opened {b : Bracket} {outer : List Bracket} {items : List (List Char)}
      {inside cs : List Char} (hitems : ∀ item ∈ items, b.Item item)
      (hinside : Inside b.closing items inside) (h : Closes rest outer cs) :
      Sound rest ⟨.opened, b :: outer, inside ++ cs⟩
  | closed {outer : List Bracket} {cs : List Char} (h : Closes rest outer cs) :
      Sound rest ⟨.closed, outer, cs⟩

theorem Step.sound {s s' : State} {rest : List Char} (h : Step s s') (hs : s'.Sound rest) :
    s.Sound rest := by
  cases h with
  | @scalar outer cs cs' h =>
    obtain ⟨text, hcs, ⟨_, htext⟩ | ⟨_, hb, _⟩⟩ := eq_append_of_head h
    . obtain ⟨space, hspace, heq⟩ := exists_space cs
      cases hs with
      | closed hcloses =>
        rw [heq, hcs]
        exact .value hspace htext hcloses
    . contradiction
  | @opening outer cs cs' b h =>
    obtain ⟨text, hcs, ⟨hb, _⟩ | ⟨b', hb, rfl⟩⟩ := eq_append_of_head h
    . contradiction
    . obtain rfl := Option.some.inj hb
      obtain ⟨space, hspace, heq⟩ := exists_space cs
      cases hs with
      | opened hitems hinside hcloses =>
        rw [heq, hcs, ← List.append_assoc [b.opening]]
        exact .value hspace (Bracket.valueSyntax hitems hinside) hcloses
  | @closing outer cs cs' b place hplace h =>
    obtain ⟨space, hspace, heq⟩ := exists_space cs
    rw [h, List.append_cons] at heq
    rw [heq]
    have hnone : ∀ item ∈ [], b.Item item := by simp
    cases hs with
    | closed hcloses =>
      cases place with
      | value => contradiction
      | opened => exact .opened hnone (.nil hspace) hcloses
      | closed => exact .closed (.cons hnone (.nil hspace) hcloses)
  | @first outer cs cs' _ b c h _ hnext =>
    obtain ⟨space, hspace, heq⟩ := exists_space cs
    cases hs with
    | value hbetween htext hcloses =>
      cases hcloses with
      | cons hitems htail hcloses =>
        obtain ⟨before, item, hbefore, hitem, hcs⟩ := item_of_next hnext hbetween htext
        have hall := List.forall_mem_cons.mpr ⟨hitem, hitems⟩
        have hspaces : (space ++ before).all isSpace := by
          rw [List.all_append, hspace, hbefore]
          rfl
        have hsound := State.Sound.opened hall (.cons hspaces htail) hcloses
        rw [heq, h, hcs]
        simpa only [List.append_assoc] using hsound
  | @comma outer cs cs' _ b h hnext =>
    obtain ⟨space, hspace, heq⟩ := exists_space cs
    cases hs with
    | value hbetween htext hcloses =>
      cases hcloses with
      | cons hitems htail hcloses =>
        obtain ⟨before, item, hbefore, hitem, hcs⟩ := item_of_next hnext hbetween htext
        have hall := List.forall_mem_cons.mpr ⟨hitem, hitems⟩
        have hsound := State.Sound.closed (.cons hall (.cons hspace hbefore htail) hcloses)
        rw [heq, h, hcs]
        simpa only [List.append_assoc, List.cons_append] using hsound

theorem sound_of_reaches {s s' : State} {rest : List Char} (h : Reaches s s')
    (hs : s'.Sound rest) : s.Sound rest := by
  induction h using Relation.ReflTransGen.head_induction_on with
  | refl => exact hs
  | head hstep _ ih => exact hstep.sound ih

theorem Passes.valueSyntax {cs rest : List Char} (h : Passes cs rest) :
    ∃ space text, space.all isSpace ∧ ValueSyntax text ∧ cs = space ++ (text ++ rest) := by
  cases sound_of_reaches (h []) (.closed .nil) with
  | value hspace htext hcloses =>
    cases hcloses with
    | nil => exact ⟨_, _, hspace, htext, rfl⟩

end Skip

theorem Reader.Agrees.documentText {read : Reader α} (h : read.Agrees) {document : String} {a : α}
    (hread : Reader.document read document = .ok a) :
    DocumentText (fun _ => ValueSyntax) document := by
  unfold Reader.document at hread
  rw [bind_eq_ok_iff] at hread
  obtain ⟨⟨a', rest⟩, hvalue, hrest⟩ := hread
  dsimp only at hrest
  split at hrest
  . next hnone =>
    obtain ⟨before, text, hbefore, htext, heq⟩ := (h.passes hvalue).valueSyntax
    obtain ⟨after, hafter, hafter'⟩ := exists_space rest
    rw [List.isEmpty_iff.mp hnone, List.append_nil] at hafter'
    refine ⟨before, text, after, hbefore, hafter, htext, ?_⟩
    rw [← hafter', ← heq, String.ofList_toList]
  . contradiction

end SchemaMigration.Json
