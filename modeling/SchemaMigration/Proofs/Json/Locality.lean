import SchemaMigration.Proofs.Json.Agreement
import SchemaMigration.Proofs.Json.ReadBack

/-!
This module contains that readers are local. What a reader makes of the text of a value, be it a
result or a fault, depends neither on what stands around the text, nor on how many more arrays and
objects may be opened, as long as the text does not need them.
-/

namespace SchemaMigration.Json

open Lexeme

namespace Lexeme

theorem stringChars_of_escape_error {cs : List Char} {e : Error} (h : escape cs = .error e) :
    stringChars 0 ('\\' :: cs) = .error e := by
  rw [stringChars, h]
  rfl

-- The second half of a pair is either there or missing, whatever comes behind the string.
theorem lowSurrogate_parts {parts : List (List Char)} (h : ∀ part ∈ parts, CharSyntax part)
    (high : Nat) :
    (∃ e, ∀ rest, lowSurrogate high (parts.flatten ++ '"' :: rest) = .error e) ∨
    ∃ a b c d low parts', parts = ['\\', 'u', a, b, c, d] :: parts' ∧
      codeUnit? a b c d = some low ∧ isLowSurrogate low = true := by
  cases parts with
  | nil => exact .inl ⟨.unexpectedEndOfEscape, fun _ => rfl⟩
  | cons part parts =>
    rw [List.forall_mem_cons] at h
    cases h.1 with
    | @plain c _ hbackslash _ =>
      refine .inl ⟨.unexpectedEndOfEscape, ?_⟩
      intro rest
      simp only [List.flatten_cons, List.cons_append]
      unfold lowSurrogate
      split <;> simp_all
    | @short e he =>
      refine .inl ⟨.unexpectedEndOfEscape, ?_⟩
      intro rest
      simp only [List.flatten_cons, List.cons_append, List.nil_append]
      unfold lowSurrogate
      split <;> simp_all [shortEscape?_u]
    | @unit a b c d hunit =>
      obtain ⟨low, hlow⟩ := Option.isSome_iff_exists.mp hunit
      by_cases hsecond : isLowSurrogate low = true
      . exact .inr ⟨a, b, c, d, low, parts, rfl, hlow, hsecond⟩
      . refine .inl ⟨.loneSurrogate, ?_⟩
        intro rest
        simp only [List.flatten_cons, List.cons_append, List.nil_append, lowSurrogate]
        rw [codeUnit_text hlow]
        simp [bind, Except.bind, hsecond]

theorem unicodeEscape_low {a b c d : Char} {unit : Nat} (h : codeUnit? a b c d = some unit)
    (hlow : isLowSurrogate unit = true) (rest : List Char) :
    unicodeEscape (a :: b :: c :: d :: rest) = .error .loneSurrogate := by
  unfold unicodeEscape
  rw [codeUnit_text h]
  simp [bind, Except.bind, hlow]

theorem unicodeEscape_high_error {a b c d : Char} {unit : Nat}
    (h : codeUnit? a b c d = some unit) (hlow : isLowSurrogate unit = false)
    (hhigh : isHighSurrogate unit = true) {rest : List Char} {e : Error}
    (hsecond : lowSurrogate unit rest = .error e) :
    unicodeEscape (a :: b :: c :: d :: rest) = .error e := by
  unfold unicodeEscape
  rw [codeUnit_text h]
  simp [bind, Except.bind, hlow, hhigh, hsecond]

theorem escape_u_error {cs : List Char} {e : Error} (h : unicodeEscape cs = .error e) :
    escape ('u' :: cs) = .error e := by
  simp only [escape]
  rw [h]
  rfl

-- The first character is spelled by one part or by two, or it is the fault of the string.
theorem charText_or_fault {part : List Char} {parts : List (List Char)}
    (h : ∀ p ∈ part :: parts, CharSyntax p) :
    (∃ (x : Char) (first : List Char) (parts' : List (List Char)), CharText x first ∧
      part ++ parts.flatten = first ++ parts'.flatten ∧ parts'.length ≤ parts.length ∧
      ∀ p ∈ parts', CharSyntax p) ∨
    ∃ e, ∀ rest, stringChars 0 (part ++ (parts.flatten ++ '"' :: rest)) = .error e := by
  rw [List.forall_mem_cons] at h
  obtain ⟨hpart, hparts⟩ := h
  cases hpart with
  | plain hquote hbackslash hcontrol =>
    exact .inl ⟨_, _, parts, .plain hquote hbackslash hcontrol, rfl, Nat.le_refl _, hparts⟩
  | @short e he =>
    obtain ⟨x, hx⟩ := Option.isSome_iff_exists.mp he
    exact .inl ⟨x, _, parts, .short hx, rfl, Nat.le_refl _, hparts⟩
  | @unit a b c d hunit =>
    obtain ⟨unit, hunit⟩ := Option.isSome_iff_exists.mp hunit
    cases hlow : isLowSurrogate unit with
    | true =>
      refine .inr ⟨.loneSurrogate, ?_⟩
      intro rest
      exact stringChars_of_escape_error (escape_u_error (unicodeEscape_low hunit hlow _))
    | false =>
      cases hhigh : isHighSurrogate unit with
      | false =>
        rw [← toNat_ofNat_unit (codeUnit?_lt hunit) hhigh hlow] at hunit
        exact .inl ⟨_, _, parts, .unit hunit, rfl, Nat.le_refl _, hparts⟩
      | true =>
        obtain ⟨e, he⟩ | ⟨a', b', c', d', low, parts', rfl, hunit', hlow'⟩ :=
          lowSurrogate_parts hparts unit
        . refine .inr ⟨e, ?_⟩
          intro rest
          exact stringChars_of_escape_error
            (escape_u_error (unicodeEscape_high_error hunit hlow hhigh (he rest)))
        . rw [List.forall_mem_cons] at hparts
          refine .inl ⟨_, _, parts', .pair hunit hunit' hhigh hlow', ?_, by simp, hparts.2⟩
          simp

theorem stringChars_parts {parts : List (List Char)} (h : ∀ part ∈ parts, CharSyntax part) :
    ∃ r : Except Error (List Char), ∀ rest,
      stringChars 0 (parts.flatten ++ '"' :: rest) = r.map fun chars => (chars, rest) := by
  induction hlength : parts.length using Nat.strongRecOn generalizing parts with
  | ind n ih =>
    cases parts with
    | nil => exact ⟨.ok [], fun _ => by simp [stringChars, Except.map]⟩
    | cons part parts =>
      obtain ⟨x, first, parts', hx, heq, hle, hparts'⟩ | ⟨e, he⟩ := charText_or_fault h
      . rw [List.length_cons] at hlength
        obtain ⟨r, hr⟩ := ih parts'.length (by omega) hparts' rfl
        refine ⟨r.map (x :: ·), ?_⟩
        intro rest
        rw [List.flatten_cons, heq, List.append_assoc, stringChars_charText hx, hr]
        cases r <;> rfl
      . refine ⟨.error e, ?_⟩
        intro rest
        rw [List.flatten_cons, List.append_assoc, he]
        rfl

end Lexeme

theorem StringSyntax.body {text : List Char} (h : StringSyntax text) :
    ∃ body, text = '"' :: body ∧ ∃ r : Except Error String, ∀ rest,
      stringBody (body ++ rest) = r.map fun s => (s, rest) := by
  obtain ⟨parts, hparts, htext⟩ := h
  obtain ⟨r, hr⟩ := stringChars_parts hparts
  refine ⟨_, htext, r.map String.ofList, ?_⟩
  intro rest
  unfold stringBody
  rw [List.append_assoc, List.singleton_append, hr]
  cases r <;> rfl

theorem NumberSyntax.number {text : List Char} (h : NumberSyntax text) :
    ∃ r : Except Error Number, ∀ {rest : List Char}, EndsNumber rest →
      Lexeme.number (text ++ rest) = r.map fun n => (n, rest) := by
  obtain ⟨l, hl⟩ := h.literal
  unfold Lexeme.number
  cases hn : l.number? with
  | none =>
    refine ⟨.error .numberOutOfRange, ?_⟩
    intro rest hrest
    rw [hl hrest]
    simp [bind, Except.bind, hn, Except.map]
  | some n =>
    refine ⟨.ok n, ?_⟩
    intro rest hrest
    rw [hl hrest]
    simp [bind, Except.bind, hn, Except.map]

inductive ScalarSyntax : List Char → Prop where
  | null : ScalarSyntax ['n', 'u', 'l', 'l']
  | true : ScalarSyntax ['t', 'r', 'u', 'e']
  | false : ScalarSyntax ['f', 'a', 'l', 's', 'e']
  | number {text : List Char} (h : NumberSyntax text) : ScalarSyntax text
  | string {text : List Char} (h : StringSyntax text) : ScalarSyntax text

inductive NestedSyntax : Nat → List Char → Prop where
  | scalar {n : Nat} {text : List Char} (h : ScalarSyntax text) : NestedSyntax n text
  | array {n : Nat} {items : List (List Char)} {text : List Char}
      (hitems : ∀ item ∈ items, NestedSyntax n item) (h : ArrayText items text) :
      NestedSyntax (n + 1) text
  | object {n : Nat} {members : List (List Char × List Char)} {text : List Char}
      (hkeys : ∀ m ∈ members, StringSyntax m.1) (hvalues : ∀ m ∈ members, NestedSyntax n m.2)
      (h : ObjectText members text) : NestedSyntax (n + 1) text

inductive Alike : Nat → Nat → List Char → Prop where
  | scalar {depth depth' : Nat} {text : List Char} (h : ScalarSyntax text) :
      Alike depth depth' text
  | array {depth depth' : Nat} {items : List (List Char)} {text : List Char}
      (hitems : ∀ item ∈ items, Alike depth depth' item) (h : ArrayText items text) :
      Alike (depth + 1) (depth' + 1) text
  | object {depth depth' : Nat} {members : List (List Char × List Char)} {text : List Char}
      (hkeys : ∀ m ∈ members, StringSyntax m.1) (hvalues : ∀ m ∈ members, Alike depth depth' m.2)
      (h : ObjectText members text) : Alike (depth + 1) (depth' + 1) text
  | deepArray {items : List (List Char)} {text : List Char}
      (hitems : ∀ item ∈ items, ValueSyntax item) (h : ArrayText items text) : Alike 0 0 text
  | deepObject {members : List (List Char × List Char)} {text : List Char}
      (hkeys : ∀ m ∈ members, StringSyntax m.1) (hvalues : ∀ m ∈ members, ValueSyntax m.2)
      (h : ObjectText members text) : Alike 0 0 text

theorem ScalarSyntax.valueSyntax {text : List Char} (h : ScalarSyntax text) : ValueSyntax text := by
  cases h with
  | null => exact .null
  | true => exact .true
  | false => exact .false
  | number h => exact .number h
  | string h => exact .string h

theorem ValueSyntax.eq_null {text : List Char} (h : ValueSyntax text)
    (hhead : text.head? = some 'n') : text = ['n', 'u', 'l', 'l'] := by
  cases h with
  | null => rfl
  | true => contradiction
  | false => contradiction
  | number h =>
    obtain ⟨c, cs, rfl, hc⟩ := h.head
    obtain rfl := Option.some.inj hhead
    exact absurd hc (by decide)
  | string h =>
    obtain ⟨_, _, rfl⟩ := h
    simp at hhead
  | array _ h =>
    obtain ⟨_, _, rfl⟩ := h
    simp at hhead
  | object _ _ h =>
    obtain ⟨_, _, _, _, rfl⟩ := h
    simp at hhead

theorem ScalarSyntax.head_ne {text : List Char} (h : ScalarSyntax text) :
    text.head? ≠ some '[' ∧ text.head? ≠ some '\x7b' := by
  cases h with
  | null => simp
  | true => simp
  | false => simp
  | number h =>
    obtain ⟨c, cs, rfl, hc⟩ := h.head
    rw [List.head?_cons]
    constructor
    . rintro ⟨⟩
      exact absurd hc (by decide)
    . rintro ⟨⟩
      exact absurd hc (by decide)
  | string h =>
    obtain ⟨_, _, rfl⟩ := h
    simp

theorem ValueSyntax.stringSyntax {text : List Char} (h : ValueSyntax text)
    (hhead : text.head? = some '"') : StringSyntax text := by
  cases h with
  | null => contradiction
  | true => contradiction
  | false => contradiction
  | number h =>
    obtain ⟨c, cs, rfl, hc⟩ := h.head
    obtain rfl := Option.some.inj hhead
    exact absurd hc (by decide)
  | string h => exact h
  | array _ h =>
    obtain ⟨_, _, rfl⟩ := h
    simp at hhead
  | object _ _ h =>
    obtain ⟨_, _, _, _, rfl⟩ := h
    simp at hhead

theorem Alike.valueSyntax {depth depth' : Nat} {text : List Char} (h : Alike depth depth' text) :
    ValueSyntax text := by
  induction h with
  | scalar h => exact h.valueSyntax
  | array _ h ih => exact .array ih h
  | object hkeys _ h ih => exact .object hkeys ih h
  | deepArray hitems h => exact .array hitems h
  | deepObject hkeys hvalues h => exact .object hkeys hvalues h

theorem ValueSyntax.alike {text : List Char} (h : ValueSyntax text) (depth : Nat) :
    Alike depth depth text := by
  induction h generalizing depth with
  | null => exact .scalar .null
  | true => exact .scalar .true
  | false => exact .scalar .false
  | number h => exact .scalar (.number h)
  | string h => exact .scalar (.string h)
  | array hitems h ih =>
    cases depth with
    | zero => exact .deepArray hitems h
    | succ depth => exact .array (fun item hitem => ih item hitem depth) h
  | object hkeys hvalues h ih =>
    cases depth with
    | zero => exact .deepObject hkeys hvalues h
    | succ depth => exact .object hkeys (fun m hm => ih m hm depth) h

theorem NestedSyntax.alike {n : Nat} {text : List Char} (h : NestedSyntax n text)
    {depth depth' : Nat} (hdepth : n ≤ depth) (hdepth' : n ≤ depth') :
    Alike depth depth' text := by
  induction h generalizing depth depth' with
  | scalar h => exact .scalar h
  | array _ h ih =>
    obtain ⟨depth, rfl⟩ := Nat.exists_eq_succ_of_ne_zero (show depth ≠ 0 by omega)
    obtain ⟨depth', rfl⟩ := Nat.exists_eq_succ_of_ne_zero (show depth' ≠ 0 by omega)
    exact .array (fun item hitem => ih item hitem (by omega) (by omega)) h
  | object hkeys _ h ih =>
    obtain ⟨depth, rfl⟩ := Nat.exists_eq_succ_of_ne_zero (show depth ≠ 0 by omega)
    obtain ⟨depth', rfl⟩ := Nat.exists_eq_succ_of_ne_zero (show depth' ≠ 0 by omega)
    exact .object hkeys (fun m hm => ih m hm (by omega) (by omega)) h

namespace Reader

structure Makes (read : Reader α) (depth : Nat) (text : List Char) (r : Except Error α) : Prop where
  reads : ∀ {rest : List Char}, EndsNumber rest →
    read depth (text ++ rest) = r.map fun a => (a, rest)

def alone (read : Reader α) (depth : Nat) (text : List Char) : Except Error α :=
  (read depth text).map (·.1)

/--
A reader makes the same of the text of a value wherever it stands, with white space in front of it
and anything but more digits behind it.
-/
structure Local (read : Reader α) : Prop where
  space : ∀ depth cs, read depth (skipSpace cs) = read depth cs
  alike : ∀ {depth depth' : Nat} {text : List Char}, Alike depth depth' text →
    ∃ r, read.Makes depth text r ∧ read.Makes depth' text r

variable {read : Reader α} {depth depth' : Nat} {text : List Char}

theorem Makes.alone {r : Except Error α} (h : read.Makes depth text r) :
    read.alone depth text = r := by
  have hread := h.reads endsNumber_nil
  rw [List.append_nil] at hread
  unfold Reader.alone
  rw [hread]
  cases r <;> rfl

theorem Local.makes (h : read.Local) (htext : ValueSyntax text) (depth : Nat) :
    read.Makes depth text (read.alone depth text) := by
  obtain ⟨r, hr, _⟩ := h.alike (htext.alike depth)
  rwa [hr.alone]

theorem Local.alone_eq (h : read.Local) (htext : Alike depth depth' text) :
    read.alone depth text = read.alone depth' text := by
  obtain ⟨r, hr, hr'⟩ := h.alike htext
  rw [hr.alone, hr'.alone]

theorem Local.reads (h : read.Local) (htext : ValueSyntax text) (depth : Nat)
    {space rest : List Char} (hspace : space.all isSpace) (hrest : EndsNumber rest) :
    read depth (space ++ (text ++ rest)) = (read.alone depth text).map fun a => (a, rest) := by
  rw [← h.space, skipSpace_value hspace htext.starts]
  exact (h.makes htext depth).reads hrest

theorem Local.finds (h : read.Local) (htext : ValueSyntax text) {a : α}
    (hread : read.alone depth text = .ok a) : read.Finds depth text a where
  starts := htext.starts
  reads := by
    intro space rest hspace hrest
    rw [h.reads htext depth hspace hrest, hread]
    rfl

theorem Finds.alone {a : α} (h : read.Finds depth text a) : read.alone depth text = .ok a := by
  have hread := h.reads_plain endsNumber_nil
  rw [List.append_nil] at hread
  unfold Reader.alone
  rw [hread]
  rfl

theorem Local.document (h : read.Local) (htext : ValueSyntax text) {before after : List Char}
    (hbefore : before.all isSpace) (hafter : after.all isSpace) :
    Reader.document read (String.ofList (before ++ (text ++ after))) =
      read.alone maxDepth text := by
  have hends := endsNumber_append_of_space hafter endsNumber_nil
  rw [List.append_nil] at hends
  have hrest : skipSpace after = [] := by
    rw [← List.append_nil after, skipSpace_append hafter]
    rfl
  unfold Reader.document
  rw [String.toList_ofList, h.reads htext maxDepth hbefore hends]
  cases read.alone maxDepth text with
  | error e => rfl
  | ok a => simp [bind, Except.bind, Except.map, hrest]

theorem skipSpace_text (htext : startsValue text) (rest : List Char) :
    skipSpace (text ++ rest) = text ++ rest := by
  have hspace : ([] : List Char).all isSpace := rfl
  exact skipSpace_value hspace htext rest

theorem mismatch_quote (expected : String) (cs : List Char) :
    (mismatch expected ('"' :: cs) : Except Error α) =
      stringBody cs >>= fun (s, _) => .error (.invalidType (.string s) expected) := rfl

theorem mismatch_number (expected : String) {c : Char} (hc : c = '-' ∨ c.isDigit = true)
    (cs : List Char) :
    (mismatch expected (c :: cs) : Except Error α) =
      Lexeme.number (c :: cs) >>= fun (n, _) => .error (.invalidType (.number n) expected) := by
  unfold mismatch
  rw [skipSpace_cons (isSpace_eq_false_of_startsValue (startsValue_of_number hc cs))]
  split
  case h_8 heq =>
    rw [List.cons.injEq] at heq
    obtain ⟨rfl, rfl⟩ := heq
    rw [if_pos hc]
  all_goals simp_all

-- A value of another kind is the same fault wherever it stands.
theorem mismatch_text (h : ValueSyntax text) (expected : String) :
    ∃ e, ∀ {rest : List Char}, EndsNumber rest →
      (mismatch expected (text ++ rest) : Except Error α) = .error e := by
  cases h with
  | null => exact ⟨.invalidType .null expected, fun _ => rfl⟩
  | true => exact ⟨.invalidType (.bool true) expected, fun _ => rfl⟩
  | false => exact ⟨.invalidType (.bool false) expected, fun _ => rfl⟩
  | number h =>
    obtain ⟨c, cs, htext, hc⟩ := h.head
    obtain ⟨r, hr⟩ := h.number
    have hmismatch : ∀ {rest : List Char}, EndsNumber rest →
        (mismatch expected (text ++ rest) : Except Error α) =
          r >>= fun n => .error (.invalidType (.number n) expected) := by
      intro rest hrest
      have hnumber := hr hrest
      rw [htext] at hnumber ⊢
      rw [List.cons_append] at hnumber ⊢
      rw [mismatch_number expected hc, hnumber]
      cases r <;> rfl
    cases r with
    | error e => exact ⟨e, hmismatch⟩
    | ok n => exact ⟨.invalidType (.number n) expected, hmismatch⟩
  | string h =>
    obtain ⟨body, rfl, r, hr⟩ := h.body
    have hmismatch : ∀ {rest : List Char}, EndsNumber rest →
        (mismatch expected ('"' :: body ++ rest) : Except Error α) =
          r >>= fun s => .error (.invalidType (.string s) expected) := by
      intro rest _
      rw [List.cons_append, mismatch_quote, hr]
      cases r <;> rfl
    cases r with
    | error e => exact ⟨e, hmismatch⟩
    | ok s => exact ⟨.invalidType (.string s) expected, hmismatch⟩
  | array _ h =>
    obtain ⟨_, _, rfl⟩ := h
    exact ⟨.invalidType .array expected, fun _ => rfl⟩
  | object _ _ h =>
    obtain ⟨_, _, _, _, rfl⟩ := h
    exact ⟨.invalidType .object expected, fun _ => rfl⟩

theorem makes_of_mismatch (h : ValueSyntax text) {expected : String}
    (hread : ∀ depth rest, read depth (text ++ rest) = mismatch expected (text ++ rest)) :
    ∃ r, ∀ depth, read.Makes depth text r := by
  obtain ⟨e, he⟩ := mismatch_text h expected
  refine ⟨.error e, fun depth => ⟨?_⟩⟩
  intro rest hrest
  rw [hread, he hrest]
  rfl

theorem head?_text (hstarts : startsValue text) {rest cs : List Char} {c : Char}
    (h : skipSpace (text ++ rest) = c :: cs) : text.head? = some c := by
  rw [skipSpace_text hstarts] at h
  rw [← List.head?_append_of_ne_nil _ (ne_nil_of_startsValue hstarts), h]
  rfl

end Reader

end SchemaMigration.Json
