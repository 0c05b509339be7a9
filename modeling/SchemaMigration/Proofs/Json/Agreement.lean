import SchemaMigration.Proofs.Json.Skip

/-!
This module contains that readers take no more and no less of a document than a value. What a
reader reads is passed over by the machine that skips values, and the reader stops where that does.
-/

namespace SchemaMigration.Json

open Lexeme

namespace Lexeme

theorem hexDigit?_lt {c : Char} {n : Nat} (h : hexDigit? c = some n) : n < 16 := by
  unfold hexDigit? at h
  simp only [Char.reduceToNat] at h
  split at h
  . rw [Option.some.injEq] at h
    omega
  . split at h
    . rw [Option.some.injEq] at h
      omega
    . split at h
      . rw [Option.some.injEq] at h
        omega
      . contradiction

theorem codeUnit?_lt {a b c d : Char} {unit : Nat} (h : codeUnit? a b c d = some unit) :
    unit < 0x10000 := by
  simp only [codeUnit?, Option.bind_eq_bind, Option.bind_eq_some_iff, pure, Option.some.injEq] at h
  obtain ⟨a', ha, b', hb, c', hc, d', hd, rfl⟩ := h
  have := hexDigit?_lt ha
  have := hexDigit?_lt hb
  have := hexDigit?_lt hc
  have := hexDigit?_lt hd
  omega

theorem digits_of_codeUnit {cs : List Char} {unit : Nat} (h : codeUnit cs = .ok unit) :
    ∃ a b c d rest, cs = a :: b :: c :: d :: rest ∧ codeUnit? a b c d = some unit := by
  unfold codeUnit at h
  split at h
  . next a b c d rest =>
    split at h
    . next hunit =>
      rw [Except.ok.injEq] at h
      rw [h] at hunit
      exact ⟨a, b, c, d, rest, rfl, hunit⟩
    . contradiction
  . split at h <;> contradiction

theorem toNat_ofNat_unit {unit : Nat} (hlt : unit < 0x10000) (hhigh : isHighSurrogate unit = false)
    (hlow : isLowSurrogate unit = false) : (Char.ofNat unit).toNat = unit := by
  have hvalid : unit.isValidChar := by
    unfold isHighSurrogate at hhigh
    unfold isLowSurrogate at hlow
    simp only [Bool.and_eq_false_iff, decide_eq_false_iff_not] at hhigh hlow
    unfold Nat.isValidChar
    omega
  unfold Char.ofNat
  rw [dif_pos hvalid]
  rfl

theorem charText_of_unicodeEscape {cs : List Char} {x : Char} {size : Nat}
    (h : unicodeEscape cs = .ok (x, size)) :
    ∃ part rest, '\\' :: 'u' :: cs = part ++ rest ∧ CharText x part ∧ part.length = size + 2 := by
  unfold unicodeEscape at h
  rw [bind_eq_ok_iff] at h
  obtain ⟨unit, hunit, h⟩ := h
  obtain ⟨a, b, c, d, rest, rfl, hdigits⟩ := digits_of_codeUnit hunit
  split at h
  . contradiction
  . next hlow =>
    rw [Bool.not_eq_true] at hlow
    split at h
    . next hhigh =>
      rw [bind_eq_ok_iff] at h
      obtain ⟨y, hy, h⟩ := h
      rw [Except.ok.injEq, Prod.mk.injEq] at h
      obtain ⟨rfl, rfl⟩ := h
      simp only [List.drop_succ_cons, List.drop_zero] at hy
      unfold lowSurrogate at hy
      split at hy
      . contradiction
      . contradiction
      . rw [bind_eq_ok_iff] at hy
        obtain ⟨low, hlow', hy⟩ := hy
        obtain ⟨a', b', c', d', rest', rfl, hdigits'⟩ := digits_of_codeUnit hlow'
        split at hy
        . next hsecond =>
          rw [Except.ok.injEq] at hy
          rw [← hy]
          exact ⟨_, rest', rfl, .pair hdigits hdigits' hhigh hsecond, rfl⟩
        . contradiction
      . contradiction
    . next hhigh =>
      rw [Bool.not_eq_true] at hhigh
      rw [Except.ok.injEq, Prod.mk.injEq] at h
      obtain ⟨rfl, rfl⟩ := h
      refine ⟨_, rest, rfl, .unit ?_, rfl⟩
      rw [toNat_ofNat_unit (codeUnit?_lt hdigits) hhigh hlow, hdigits]

theorem charText_of_escape {cs : List Char} {x : Char} {size : Nat}
    (h : escape cs = .ok (x, size)) :
    ∃ part rest, '\\' :: cs = part ++ rest ∧ CharText x part ∧ part.length = size + 1 := by
  unfold escape at h
  split at h
  . contradiction
  . rw [bind_eq_ok_iff] at h
    obtain ⟨⟨y, size'⟩, hy, h⟩ := h
    rw [Except.ok.injEq, Prod.mk.injEq] at h
    obtain ⟨rfl, rfl⟩ := h
    exact charText_of_unicodeEscape hy
  . next c rest _ =>
    split at h
    . next hshort =>
      rw [Except.ok.injEq, Prod.mk.injEq] at h
      obtain ⟨rfl, rfl⟩ := h
      exact ⟨['\\', c], rest, rfl, .short hshort, rfl⟩
    . contradiction

theorem stringChars_append (part rest : List Char) :
    stringChars part.length (part ++ rest) = stringChars 0 rest := by
  induction part with
  | nil => rfl
  | cons c part ih =>
    simp only [List.length_cons, List.cons_append, stringChars]
    exact ih

theorem parts_of_stringChars {cs chars rest : List Char}
    (h : stringChars 0 cs = .ok (chars, rest)) :
    ∃ parts, List.Forall₂ CharText chars parts ∧ cs = parts.flatten ++ '"' :: rest := by
  induction hlength : cs.length using Nat.strongRecOn generalizing cs chars with
  | ind n ih =>
    -- The first character is spelled by a part, behind which the others are read.
    have hfirst : ∀ {x : Char} {part cs' chars' : List Char}, CharText x part →
        cs = part ++ cs' → chars = x :: chars' → stringChars 0 cs' = .ok (chars', rest) →
        ∃ parts, List.Forall₂ CharText chars parts ∧ cs = parts.flatten ++ '"' :: rest := by
      intro x part cs' chars' hpart hcs hchars hread
      have hlt : cs'.length < n := by
        have hsome : part.length ≠ 0 := by cases hpart <;> simp
        rw [← hlength, hcs, List.length_append]
        omega
      obtain ⟨parts, hparts, rfl⟩ := ih _ hlt hread rfl
      refine ⟨part :: parts, ?_, ?_⟩
      . rw [hchars]
        exact .cons hpart hparts
      . rw [hcs, List.flatten_cons, List.append_assoc]
    unfold stringChars at h
    split at h
    . contradiction
    . contradiction
    . rw [Except.ok.injEq, Prod.mk.injEq] at h
      obtain ⟨rfl, rfl⟩ := h
      exact ⟨[], .nil, rfl⟩
    . simp only [bind_eq_ok_iff, Except.ok.injEq, Prod.mk.injEq] at h
      obtain ⟨⟨x, size⟩, hescape, ⟨chars', rest'⟩, hread, rfl, rfl⟩ := h
      obtain ⟨part, cs', heq, hpart, hsize⟩ := charText_of_escape hescape
      refine hfirst hpart heq rfl ?_
      cases part with
      | nil => contradiction
      | cons c part =>
        rw [List.cons_append, List.cons.injEq] at heq
        rw [List.length_cons, Nat.add_right_cancel_iff] at hsize
        rwa [heq.2, ← hsize, stringChars_append] at hread
    . next c cs' hquote hbackslash _ =>
      split at h
      . contradiction
      . next hcontrol =>
        simp only [bind_eq_ok_iff, Except.ok.injEq, Prod.mk.injEq] at h
        obtain ⟨⟨chars', rest'⟩, hread, rfl, rfl⟩ := h
        exact hfirst (.plain hquote hbackslash hcontrol) rfl rfl hread

theorem stringText_of_stringBody {cs rest : List Char} {s : String}
    (h : stringBody cs = .ok (s, rest)) :
    ∃ body, StringText s ('"' :: body) ∧ cs = body ++ rest := by
  unfold stringBody at h
  simp only [bind_eq_ok_iff, Except.ok.injEq, Prod.mk.injEq] at h
  obtain ⟨⟨chars, rest'⟩, hchars, rfl, rfl⟩ := h
  obtain ⟨parts, hparts, rfl⟩ := parts_of_stringChars hchars
  refine ⟨parts.flatten ++ ['"'], ⟨parts, ?_, rfl⟩, ?_⟩
  . rwa [String.toList_ofList]
  . rw [List.append_assoc, List.singleton_append]

theorem skipString_of_stringBody {cs rest : List Char} {s : String}
    (h : stringBody cs = .ok (s, rest)) : skipString cs = .ok rest := by
  obtain ⟨body, htext, rfl⟩ := stringText_of_stringBody h
  obtain ⟨body', heq, hskip⟩ := htext.stringSyntax.skipString
  rw [List.cons.injEq] at heq
  rw [heq.2, hskip]

theorem skipNumber_of_number {cs rest : List Char} {n : Number}
    (h : number cs = .ok (n, rest)) : skipNumber cs = .ok rest := by
  unfold number at h
  rw [bind_eq_ok_iff] at h
  obtain ⟨⟨l, rest'⟩, hl, h⟩ := h
  dsimp only at h
  unfold skipNumber
  split at h
  . rw [Except.ok.injEq, Prod.mk.injEq] at h
    rw [hl, ← h.2]
  . contradiction

end Lexeme

namespace Reader

open Skip

/--
Whatever is read, the machine that skips values passes over it up to the same place.
-/
structure Agrees (read : Reader α) : Prop where
  passes : ∀ {depth : Nat} {cs rest : List Char} {a : α}, read depth cs = .ok (a, rest) →
    Passes cs rest

variable {read : Reader α}

theorem Agrees.map (h : read.Agrees) (f : α → β) : (Reader.map f read).Agrees where
  passes := by
    intro depth cs rest b hread
    unfold Reader.map at hread
    simp only [bind_eq_ok_iff, Except.ok.injEq, Prod.mk.injEq] at hread
    obtain ⟨⟨a, rest'⟩, hread, _, rfl⟩ := hread
    exact h.passes hread

theorem string_agrees : Reader.string.Agrees where
  passes := by
    intro depth cs rest s hread
    unfold Reader.string at hread
    split at hread
    . next cs' heq =>
      apply Passes.of_skipSpace
      rw [heq]
      apply Passes.scalar
      rw [head_quote, skipString_of_stringBody hread]
      rfl
    . exact absurd hread (mismatch_ne_ok _ _)

theorem Agrees.optional (h : read.Agrees) : (Reader.optional read).Agrees where
  passes := by
    intro depth cs rest a hread
    unfold Reader.optional at hread
    split at hread
    . next cs' heq =>
      simp only [bind_eq_ok_iff, Except.ok.injEq, Prod.mk.injEq] at hread
      obtain ⟨rest', hword, _, rfl⟩ := hread
      apply Passes.of_skipSpace
      rw [heq]
      apply Passes.scalar
      rw [head_null, hword]
      rfl
    . simp only [bind_eq_ok_iff, Except.ok.injEq, Prod.mk.injEq] at hread
      obtain ⟨⟨a', rest'⟩, hread, _, rfl⟩ := hread
      exact (h.passes hread).of_skipSpace

def place (first : Bool) : Place := if first then .opened else .closed

theorem place_ne_value (first : Bool) : place first ≠ .value := by
  cases first <;> decide

variable {first : Bool} {outer : List Bracket}

theorem step_of_closed {cs rest : List Char} (h : nextItem first cs = .ok (.closed rest)) :
    Step ⟨place first, .list :: outer, cs⟩ ⟨.closed, outer, rest⟩ := by
  unfold nextItem at h
  split at h
  . contradiction
  . next heq =>
    rw [Except.ok.injEq, NextItem.closed.injEq] at h
    rw [h] at heq
    exact .closing (place_ne_value first) heq
  . split at h
    . simp at h
    . split at h
      . split at h <;> simp at h
      . contradiction

theorem step_of_item {cs rest : List Char} (h : nextItem first cs = .ok (.item rest)) :
    ∃ cs', Step ⟨place first, .list :: outer, cs⟩ ⟨.value, .list :: outer, cs'⟩ ∧
      skipSpace cs' = rest := by
  unfold nextItem at h
  split at h
  . contradiction
  . simp at h
  . next c cs' hclosing heq =>
    split at h
    . next hfirst =>
      rw [Except.ok.injEq, NextItem.item.injEq] at h
      rw [hfirst]
      refine ⟨c :: cs', .first heq hclosing rfl, ?_⟩
      rw [← h, ← heq, skipSpace_skipSpace]
    . next hfirst =>
      rw [Bool.not_eq_true] at hfirst
      split at h
      . next hc =>
        rw [hc] at heq
        rw [hfirst]
        refine ⟨cs', .comma heq rfl, ?_⟩
        split at h
        . contradiction
        . contradiction
        . rwa [Except.ok.injEq, NextItem.item.injEq] at h
      . contradiction

theorem reaches_of_items {item : List Char → Except Error (α × List Char)}
    (hitem : ∀ {cs a rest}, item cs = .ok (a, rest) → Passes cs rest) {rounds : Nat}
    {cs rest : List Char} {as : List α} (h : items item rounds first cs = .ok (as, rest)) :
    Reaches ⟨place first, .list :: outer, cs⟩ ⟨.closed, outer, rest⟩ := by
  induction rounds generalizing first cs as with
  | zero => contradiction
  | succ rounds ih =>
    unfold items at h
    rw [bind_eq_ok_iff] at h
    obtain ⟨next, hnext, h⟩ := h
    cases next with
    | closed rest' =>
      simp only [Except.ok.injEq, Prod.mk.injEq] at h
      rw [h.2] at hnext
      exact .single (step_of_closed hnext)
    | item rest' =>
      simp only [bind_eq_ok_iff, Except.ok.injEq, Prod.mk.injEq] at h
      obtain ⟨⟨a, cs'⟩, ha, ⟨as', rest''⟩, has, _, rfl⟩ := h
      obtain ⟨cs'', hstep, rfl⟩ := @step_of_item _ outer _ _ hnext
      exact .head hstep (((hitem ha).of_skipSpace _).trans (ih has))

theorem Agrees.list (h : read.Agrees) : (Reader.list read).Agrees where
  passes := by
    intro depth cs rest as hread
    unfold Reader.list at hread
    split at hread
    . next cs' heq =>
      unfold inside at hread
      split at hread
      . contradiction
      . apply Passes.of_skipSpace
        rw [heq]
        exact Passes.bracketed rfl fun outer => reaches_of_items h.passes hread
    . exact absurd hread (mismatch_ne_ok _ _)

theorem step_of_closedMember {cs rest : List Char} (h : nextMember first cs = .ok (.closed rest)) :
    Step ⟨place first, .object :: outer, cs⟩ ⟨.closed, outer, rest⟩ := by
  unfold nextMember at h
  have hkey : ∀ cs', key cs' ≠ .ok (.closed rest) := by
    intro cs' hkey
    unfold key at hkey
    split at hkey
    . simp [bind_eq_ok_iff] at hkey
    . contradiction
  split at h
  . contradiction
  . next heq =>
    rw [Except.ok.injEq, NextMember.closed.injEq] at h
    rw [h] at heq
    exact .closing (place_ne_value first) heq
  . split at h
    . exact absurd h (hkey _)
    . split at h
      . split at h
        . contradiction
        . contradiction
        . exact absurd h (hkey _)
      . contradiction

theorem skipKey_of_key {cs rest rest' : List Char} {k : String}
    (h : key (skipSpace cs) = .ok (.key k rest)) (hcolon : colon rest = .ok rest') :
    Skip.key cs = .ok rest' := by
  unfold key at h
  split at h
  . next body heq =>
    simp only [bind_eq_ok_iff, Except.ok.injEq, NextMember.key.injEq] at h
    obtain ⟨⟨k', rest''⟩, hbody, _, rfl⟩ := h
    simp only [Skip.key, heq]
    rw [skipString_of_stringBody hbody]
    unfold colon at hcolon
    split at hcolon
    . contradiction
    . next hspace =>
      simp only [bind, Except.bind, hspace]
      exact hcolon
    . contradiction
  . contradiction

theorem step_of_key {cs rest rest' : List Char} {k : String}
    (h : nextMember first cs = .ok (.key k rest)) (hcolon : colon rest = .ok rest') :
    Step ⟨place first, .object :: outer, cs⟩ ⟨.value, .object :: outer, rest'⟩ := by
  unfold nextMember at h
  split at h
  . contradiction
  . simp at h
  . next c cs' hclosing heq =>
    split at h
    . next hfirst =>
      rw [← heq, ← skipSpace_skipSpace] at h
      have hkey := skipKey_of_key h hcolon
      rw [heq] at hkey
      rw [hfirst]
      exact .first heq (b := .object) hclosing hkey
    . next hfirst =>
      rw [Bool.not_eq_true] at hfirst
      split at h
      . next hc =>
        rw [hc] at heq
        rw [hfirst]
        apply Step.comma heq
        split at h
        . contradiction
        . contradiction
        . exact skipKey_of_key h hcolon
      . contradiction

theorem reaches_of_members {step : σ → String → List Char → Except Error (σ × List Char)}
    (hstep : ∀ {s key cs s' rest}, step s key cs = .ok (s', rest) →
      ∃ cs', colon cs = .ok cs' ∧ Passes cs' rest) {rounds : Nat} {s s' : σ} {cs rest : List Char}
    (h : members step rounds first s cs = .ok (s', rest)) :
    Reaches ⟨place first, .object :: outer, cs⟩ ⟨.closed, outer, rest⟩ := by
  induction rounds generalizing first s cs with
  | zero => contradiction
  | succ rounds ih =>
    unfold members at h
    rw [bind_eq_ok_iff] at h
    obtain ⟨next, hnext, h⟩ := h
    cases next with
    | closed rest' =>
      simp only [Except.ok.injEq, Prod.mk.injEq] at h
      rw [h.2] at hnext
      exact .single (step_of_closedMember hnext)
    | key k cs' =>
      simp only [bind_eq_ok_iff] at h
      obtain ⟨⟨s'', cs''⟩, hs'', h⟩ := h
      obtain ⟨cs₁, hcolon, hpasses⟩ := hstep hs''
      exact .head (step_of_key hnext hcolon) ((hpasses _).trans (ih h))

theorem passes_of_objectBody {step : σ → String → List Char → Except Error (σ × List Char)}
    (hstep : ∀ {s key cs s' rest}, step s key cs = .ok (s', rest) →
      ∃ cs', colon cs = .ok cs' ∧ Passes cs' rest) {s s' : σ} {cs rest : List Char}
    (h : objectBody step s cs = .ok (s', rest)) : Passes ('\x7b' :: cs) rest :=
  Passes.bracketed rfl fun _ => reaches_of_members hstep h

theorem colon_of_addMember {depth : Nat} {members members' : List (String × Json)} {k : String}
    {cs rest : List Char} (h : addMember depth members k cs = .ok (members', rest)) :
    ∃ cs' j, colon cs = .ok cs' ∧ value depth cs' = .ok (j, rest) := by
  unfold addMember at h
  simp only [bind_eq_ok_iff, Except.ok.injEq, Prod.mk.injEq] at h
  obtain ⟨cs', hcolon, ⟨j, rest'⟩, hj, _, rfl⟩ := h
  exact ⟨cs', j, hcolon, hj⟩

theorem passes_of_value {depth : Nat} {cs rest : List Char} {j : Json}
    (h : value depth cs = .ok (j, rest))
    (hinner : ∀ inner cs' rest' j', depth = inner + 1 → value inner cs' = .ok (j', rest') →
      Passes cs' rest') : Passes cs rest := by
  apply Passes.of_skipSpace
  unfold value at h
  split at h
  case h_1 => contradiction
  case h_2 heq =>
    simp only [bind_eq_ok_iff, Except.ok.injEq, Prod.mk.injEq] at h
    obtain ⟨_, hword, _, rfl⟩ := h
    rw [heq]
    apply Passes.scalar
    rw [head_null, hword]
    rfl
  case h_3 heq =>
    simp only [bind_eq_ok_iff, Except.ok.injEq, Prod.mk.injEq] at h
    obtain ⟨_, hword, _, rfl⟩ := h
    rw [heq]
    apply Passes.scalar
    rw [head_true, hword]
    rfl
  case h_4 heq =>
    simp only [bind_eq_ok_iff, Except.ok.injEq, Prod.mk.injEq] at h
    obtain ⟨_, hword, _, rfl⟩ := h
    rw [heq]
    apply Passes.scalar
    rw [head_false, hword]
    rfl
  case h_5 heq =>
    simp only [bind_eq_ok_iff, Except.ok.injEq, Prod.mk.injEq] at h
    obtain ⟨⟨s, rest'⟩, hbody, _, rfl⟩ := h
    rw [heq]
    apply Passes.scalar
    rw [head_quote, skipString_of_stringBody hbody]
    rfl
  case h_6 | h_7 => contradiction
  case h_8 inner cs' heq =>
    simp only [bind_eq_ok_iff, Except.ok.injEq, Prod.mk.injEq] at h
    obtain ⟨⟨items, rest'⟩, hitems, _, rfl⟩ := h
    rw [heq]
    exact Passes.bracketed rfl fun outer => reaches_of_items (hinner inner _ _ _ rfl) hitems
  case h_9 inner cs' heq =>
    simp only [bind_eq_ok_iff, Except.ok.injEq, Prod.mk.injEq] at h
    obtain ⟨⟨members, rest'⟩, hmembers, _, rfl⟩ := h
    rw [heq]
    apply passes_of_objectBody _ hmembers
    intro s key cs s' rest hstep
    obtain ⟨cs', j, hcolon, hj⟩ := colon_of_addMember hstep
    exact ⟨cs', hcolon, hinner inner _ _ _ rfl hj⟩
  case h_10 heq =>
    split at h
    . next hc =>
      simp only [bind_eq_ok_iff, Except.ok.injEq, Prod.mk.injEq] at h
      obtain ⟨⟨n, rest'⟩, hnumber, _, rfl⟩ := h
      rw [heq]
      apply Passes.scalar
      rw [head_number hc, skipNumber_of_number hnumber]
      rfl
    . contradiction

theorem value_agrees : Reader.Agrees Reader.value where
  passes := by
    intro depth cs rest j hread
    induction depth generalizing cs rest j with
    | zero =>
      apply passes_of_value hread
      simp
    | succ depth ih =>
      apply passes_of_value hread
      intro inner cs' rest' j' hdepth hinner
      obtain rfl := Nat.succ.inj hdepth
      exact ih hinner

theorem Agrees.nameMap (h : read.Agrees) : (NameMap.reader read).Agrees where
  passes := by
    intro depth cs rest map hread
    unfold NameMap.reader at hread
    split at hread
    . next cs' heq =>
      rw [inside_eq_ok_iff] at hread
      obtain ⟨inner, _, hread⟩ := hread
      simp only [bind_eq_ok_iff, Except.ok.injEq, Prod.mk.injEq] at hread
      obtain ⟨⟨entries, rest'⟩, hentries, _, rfl⟩ := hread
      apply Passes.of_skipSpace
      rw [heq]
      apply passes_of_objectBody _ hentries
      intro before name cs after rest hmember
      unfold NameMap.member at hmember
      simp only [bind_eq_ok_iff] at hmember
      obtain ⟨cs', hcolon, ⟨a, rest'⟩, ha, hmember⟩ := hmember
      split at hmember
      . contradiction
      . simp only [Except.ok.injEq, Prod.mk.injEq] at hmember
        rw [← hmember.2]
        exact ⟨cs', hcolon, h.passes ha⟩
    . exact absurd hread (mismatch_ne_ok _ _)

end Reader

theorem Field.mandatory_agrees {key : String} {read : Reader β} {set : β → α → α}
    (h : read.Agrees) : (Field.mandatory key read set).read.Agrees :=
  h.map set

theorem Field.optional_agrees {key : String} {read : Reader β} {set : Option β → α → α}
    (h : read.Agrees) : (Field.defaulted key (Reader.optional read) set).read.Agrees :=
  h.optional.map set

namespace Record

open Skip

variable {r : Record α}

theorem passes_of_member (hfields : ∀ field ∈ r.fields, field.read.Agrees) {depth : Nat}
    {progress progress' : Progress α} {key : String} {cs rest : List Char}
    (h : r.member depth progress key cs = .ok (progress', rest)) :
    ∃ cs', Reader.colon cs = .ok cs' ∧ Passes cs' rest := by
  unfold member at h
  split at h
  . simp only [bind_eq_ok_iff, Except.ok.injEq, Prod.mk.injEq] at h
    obtain ⟨cs', hcolon, rest', hskip, _, rfl⟩ := h
    exact ⟨cs', hcolon, Skip.value_eq_ok_iff.mp hskip⟩
  . next field hfind =>
    split at h
    . contradiction
    . simp only [bind_eq_ok_iff, Except.ok.injEq, Prod.mk.injEq] at h
      obtain ⟨cs', hcolon, ⟨set, rest'⟩, hset, _, rfl⟩ := h
      exact ⟨cs', hcolon, (hfields field (List.mem_of_find?_eq_some hfind)).passes hset⟩

theorem step_of_closing {cs rest : List Char} {outer : List Bracket} (first : Bool)
    (h : closing cs = .ok rest) :
    Step ⟨Reader.place first, .list :: outer, cs⟩ ⟨.closed, outer, rest⟩ := by
  unfold closing at h
  split at h
  . contradiction
  . next heq =>
    rw [Except.ok.injEq] at h
    rw [h] at heq
    exact .closing (Reader.place_ne_value first) heq
  . split at h <;> contradiction
  . contradiction

theorem reaches_of_positional {depth : Nat} {fields : List (Field α)}
    (hfields : ∀ field ∈ fields, field.read.Agrees) {index : Nat} {before a : α}
    {cs rest : List Char} (h : r.positional depth fields index before cs = .ok (a, rest))
    (outer : List Bracket) :
    Reaches ⟨Reader.place (index == 0), .list :: outer, cs⟩ ⟨.closed, outer, rest⟩ := by
  induction fields generalizing index before cs with
  | nil =>
    unfold positional at h
    simp only [bind_eq_ok_iff, Except.ok.injEq, Prod.mk.injEq] at h
    obtain ⟨rest', hclosing, _, rfl⟩ := h
    exact .single (step_of_closing _ hclosing)
  | cons field fields ih =>
    rw [List.forall_mem_cons] at hfields
    unfold positional at h
    rw [bind_eq_ok_iff] at h
    obtain ⟨next, hnext, h⟩ := h
    cases next with
    | item cs' =>
      simp only [bind_eq_ok_iff] at h
      obtain ⟨⟨set, rest'⟩, hset, h⟩ := h
      obtain ⟨cs'', hstep, rfl⟩ := @Reader.step_of_item _ outer _ _ hnext
      have hpasses := (hfields.1.passes hset).of_skipSpace (.list :: outer)
      exact .head hstep (hpasses.trans (ih hfields.2 h))
    | closed rest' =>
      dsimp only at h
      split at h
      . contradiction
      . rw [Except.ok.injEq, Prod.mk.injEq] at h
        rw [h.2] at hnext
        exact .single (Reader.step_of_closed hnext)

theorem agrees (hfields : ∀ field ∈ r.fields, field.read.Agrees) : r.read.Agrees where
  passes := by
    intro depth cs rest a hread
    apply Passes.of_skipSpace
    unfold read at hread
    split at hread
    . next heq =>
      rw [Reader.inside_eq_ok_iff] at hread
      obtain ⟨inner, _, hread⟩ := hread
      unfold ofObject at hread
      rw [bind_eq_ok_iff] at hread
      obtain ⟨⟨progress, rest'⟩, hprogress, hread⟩ := hread
      dsimp only at hread
      split at hread
      . contradiction
      . rw [Except.ok.injEq, Prod.mk.injEq] at hread
        rw [heq, ← hread.2]
        exact Reader.passes_of_objectBody (passes_of_member hfields) hprogress
    . next heq =>
      rw [Reader.inside_eq_ok_iff] at hread
      obtain ⟨inner, _, hread⟩ := hread
      rw [heq]
      exact Passes.bracketed rfl fun outer => reaches_of_positional hfields hread outer
    . exact absurd hread (Reader.mismatch_ne_ok _ _)

end Record

end SchemaMigration.Json
