import SchemaMigration.Proofs.Json.Lexeme
import SchemaMigration.Proofs.Sequence
import Mathlib.Data.List.Forall2

/-!
This module contains the syntax of JSON texts: strings whose characters are spelled in any way,
numbers, and arrays and objects with white space wherever it may be. What is well-formed here need
not have a value: a code unit may be half of a pair only, and a number may be out of range.
-/

namespace SchemaMigration.Json

open Lexeme

def startsValue : List Char → Bool
  | '"' :: _ => true
  | '[' :: _ => true
  | '\x7b' :: _ => true
  | 'n' :: _ => true
  | 't' :: _ => true
  | 'f' :: _ => true
  | '-' :: _ => true
  | c :: _ => c.isDigit
  | [] => false

theorem startsValue_append {text : List Char} (h : startsValue text) (rest : List Char) :
    startsValue (text ++ rest) := by
  unfold startsValue at h
  split at h <;> simp_all [startsValue]

theorem isSpace_eq_false_of_startsValue {c : Char} {cs : List Char} (h : startsValue (c :: cs)) :
    isSpace c = false := by
  rw [← Bool.not_eq_true]
  intro hspace
  simp only [isSpace, Bool.or_eq_true, beq_iff_eq] at hspace
  obtain ((rfl | rfl) | rfl) | rfl := hspace <;> simp [startsValue] at h

theorem ne_nil_of_startsValue {text : List Char} (h : startsValue text) : text ≠ [] := by
  intro hnil
  rw [hnil] at h
  contradiction

theorem skipSpace_value {space text : List Char} (hspace : space.all isSpace)
    (htext : startsValue text) (rest : List Char) :
    skipSpace (space ++ (text ++ rest)) = text ++ rest := by
  rw [skipSpace_append hspace]
  cases text with
  | nil => contradiction
  | cons c text =>
    rw [List.cons_append]
    exact skipSpace_cons (isSpace_eq_false_of_startsValue htext) _

theorem startsValue_of_number {c : Char} (hc : c = '-' ∨ c.isDigit = true) (cs : List Char) :
    startsValue (c :: cs) := by
  cases hc with
  | inl hc =>
    rw [hc]
    rfl
  | inr hc =>
    unfold startsValue
    split <;> simp_all

theorem integer_text_cons (i : Int) :
    ∃ c cs, (Number.integer i).text = c :: cs ∧ (c = '-' ∨ c.isDigit = true) := by
  cases i with
  | ofNat n =>
    cases h : Nat.toDigits 10 n with
    | nil => exact absurd h Nat.toDigits_ne_nil
    | cons c cs =>
      refine ⟨c, cs, h, .inr ?_⟩
      apply Nat.isDigit_of_mem_toDigits (b := 10) (n := n) (by decide) (by decide)
      simp [h]
  | negSucc n => exact ⟨'-', _, rfl, .inl rfl⟩

theorem startsValue_integer (i : Int) : startsValue (Number.integer i).text := by
  obtain ⟨c, cs, htext, hc⟩ := integer_text_cons i
  rw [htext]
  exact startsValue_of_number hc cs

theorem endsNumber_append_of_space {space cs : List Char} (hspace : space.all isSpace)
    (hcs : EndsNumber cs) : EndsNumber (space ++ cs) := by
  cases space with
  | nil => exact hcs
  | cons c space =>
    simp only [List.all_cons, Bool.and_eq_true, isSpace, Bool.or_eq_true, beq_iff_eq] at hspace
    rw [List.cons_append, endsNumber_cons]
    obtain ⟨((rfl | rfl) | rfl) | rfl, _⟩ := hspace <;> decide

inductive CharSyntax : List Char → Prop where
  | plain {c : Char} (hquote : c ≠ '"') (hbackslash : c ≠ '\\') (hcontrol : ¬ c.toNat < 0x20) :
      CharSyntax [c]
  | short {e : Char} (h : (shortEscape? e).isSome) : CharSyntax ['\\', e]
  | unit {a b c d : Char} (h : (codeUnit? a b c d).isSome) : CharSyntax ['\\', 'u', a, b, c, d]

def StringSyntax (text : List Char) : Prop :=
  ∃ parts : List (List Char), (∀ part ∈ parts, CharSyntax part) ∧
    text = '"' :: (parts.flatten ++ ['"'])

-- The ways to spell one character. A pair of code units is one of them.
inductive CharText : Char → List Char → Prop where
  | plain {c : Char} (hquote : c ≠ '"') (hbackslash : c ≠ '\\') (hcontrol : ¬ c.toNat < 0x20) :
      CharText c [c]
  | short {e c : Char} (h : shortEscape? e = some c) : CharText c ['\\', e]
  | unit {a b c d x : Char} (h : codeUnit? a b c d = some x.toNat) :
      CharText x ['\\', 'u', a, b, c, d]
  | pair {a b c d a' b' c' d' : Char} {high low : Nat} (h : codeUnit? a b c d = some high)
      (h' : codeUnit? a' b' c' d' = some low) (hhigh : isHighSurrogate high)
      (hlow : isLowSurrogate low) :
      CharText (ofSurrogates high low) ['\\', 'u', a, b, c, d, '\\', 'u', a', b', c', d']

def StringText (s : String) (text : List Char) : Prop :=
  ∃ parts : List (List Char), List.Forall₂ CharText s.toList parts ∧
    text = '"' :: (parts.flatten ++ ['"'])

theorem shortEscape?_u : shortEscape? 'u' = none := rfl

theorem codeUnit_text {a b c d : Char} {unit : Nat} (h : codeUnit? a b c d = some unit)
    (rest : List Char) : codeUnit (a :: b :: c :: d :: rest) = .ok unit := by
  simp only [codeUnit, h]

theorem not_surrogate (c : Char) :
    isHighSurrogate c.toNat = false ∧ isLowSurrogate c.toNat = false := by
  have hvalid : c.toNat < 0xd800 ∨ 0xdfff < c.toNat ∧ c.toNat < 0x110000 := c.valid
  unfold isHighSurrogate isLowSurrogate
  simp only [Bool.and_eq_false_iff, decide_eq_false_iff_not]
  omega

theorem unicodeEscape_unit {a b c d x : Char} (h : codeUnit? a b c d = some x.toNat)
    (rest : List Char) : unicodeEscape (a :: b :: c :: d :: rest) = .ok (x, 4) := by
  obtain ⟨hhigh, hlow⟩ := not_surrogate x
  unfold unicodeEscape
  rw [codeUnit_text h]
  simp [bind, Except.bind, hhigh, hlow, Char.ofNat_toNat]

theorem unicodeEscape_pair {a b c d a' b' c' d' : Char} {high low : Nat}
    (h : codeUnit? a b c d = some high) (h' : codeUnit? a' b' c' d' = some low)
    (hhigh : isHighSurrogate high = true) (hlow : isLowSurrogate low = true) (rest : List Char) :
    unicodeEscape (a :: b :: c :: d :: '\\' :: 'u' :: a' :: b' :: c' :: d' :: rest) =
      .ok (ofSurrogates high low, 10) := by
  have hnot : isLowSurrogate high = false := by
    unfold isHighSurrogate at hhigh
    unfold isLowSurrogate
    simp only [Bool.and_eq_true, decide_eq_true_eq] at hhigh
    simp only [Bool.and_eq_false_iff, decide_eq_false_iff_not]
    omega
  have hsecond : lowSurrogate high ('\\' :: 'u' :: a' :: b' :: c' :: d' :: rest) =
      .ok (ofSurrogates high low) := by
    simp only [lowSurrogate]
    rw [codeUnit_text h']
    simp [bind, Except.bind, hlow]
  unfold unicodeEscape
  rw [codeUnit_text h]
  simp [bind, Except.bind, hnot, hhigh, hsecond]

theorem escape_u {cs : List Char} {x : Char} {size : Nat} (h : unicodeEscape cs = .ok (x, size)) :
    escape ('u' :: cs) = .ok (x, size + 1) := by
  simp only [escape]
  rw [h]
  rfl

theorem stringChars_charText {x : Char} {part : List Char} (h : CharText x part)
    (rest : List Char) : stringChars 0 (part ++ rest) = (stringChars 0 rest).map (consChar x) := by
  cases h with
  | plain hquote hbackslash hcontrol => exact stringChars_of_plain hquote hbackslash hcontrol rest
  | @short e _ h =>
    apply stringChars_of_short _ h
    intro he
    rw [he, shortEscape?_u] at h
    contradiction
  | unit h =>
    have hescape := escape_u (unicodeEscape_unit h rest)
    exact stringChars_of_escape hescape
  | pair h h' hhigh hlow =>
    have hescape := escape_u (unicodeEscape_pair h h' hhigh hlow rest)
    exact stringChars_of_escape hescape

theorem stringChars_flatten {cs : List Char} {parts : List (List Char)}
    (h : List.Forall₂ CharText cs parts) (rest : List Char) :
    stringChars 0 (parts.flatten ++ '"' :: rest) = .ok (cs, rest) := by
  induction h with
  | nil => simp [stringChars]
  | cons hpart _ ih =>
    rw [List.flatten_cons, List.append_assoc]
    rw [stringChars_charText hpart, ih]
    rfl

theorem StringText.stringBody {s : String} {text : List Char} (h : StringText s text) :
    ∃ body, text = '"' :: body ∧ ∀ rest, stringBody (body ++ rest) = .ok (s, rest) := by
  obtain ⟨parts, hparts, htext⟩ := h
  refine ⟨_, htext, ?_⟩
  intro rest
  unfold Lexeme.stringBody
  rw [List.append_assoc, List.singleton_append]
  rw [stringChars_flatten hparts]
  simp [bind, Except.bind]

theorem skipStringChars_charSyntax {part : List Char} (h : CharSyntax part) (rest : List Char) :
    skipStringChars 0 (part ++ rest) = skipStringChars 0 rest := by
  cases h with
  | plain hquote hbackslash hcontrol =>
    rw [List.singleton_append, skipStringChars]
    . rw [if_neg hcontrol]
    . intro h
      exact hquote h
    . intro h
      exact hbackslash h
  | @short e h =>
    have hsize : escapeSize (e :: rest) = .ok 1 := by
      unfold escapeSize
      split
      . contradiction
      . next heq =>
        rw [List.cons.injEq] at heq
        rw [heq.1, shortEscape?_u] at h
        contradiction
      . next heq =>
        rw [List.cons.injEq] at heq
        rw [← heq.1, if_pos h]
    simp only [List.cons_append, List.nil_append]
    rw [skipStringChars, hsize]
    rfl
  | unit h =>
    obtain ⟨unit, hunit⟩ := Option.isSome_iff_exists.mp h
    simp only [List.cons_append, List.nil_append]
    rw [skipStringChars]
    simp only [escapeSize]
    rw [codeUnit_text hunit]
    rfl

theorem StringSyntax.skipString {text : List Char} (h : StringSyntax text) :
    ∃ body, text = '"' :: body ∧ ∀ rest, skipString (body ++ rest) = .ok rest := by
  obtain ⟨parts, hparts, htext⟩ := h
  refine ⟨_, htext, ?_⟩
  intro rest
  unfold Lexeme.skipString
  rw [List.append_assoc, List.singleton_append]
  clear htext
  induction parts with
  | nil => simp [skipStringChars]
  | cons part parts ih =>
    rw [List.forall_mem_cons] at hparts
    rw [List.flatten_cons, List.append_assoc]
    rw [skipStringChars_charSyntax hparts.1, ih hparts.2]

theorem CharText.parts {x : Char} {part : List Char} (h : CharText x part) :
    ∃ parts : List (List Char), (∀ p ∈ parts, CharSyntax p) ∧ part = parts.flatten := by
  cases h with
  | plain hquote hbackslash hcontrol =>
    exact ⟨[_], by simpa using CharSyntax.plain hquote hbackslash hcontrol, rfl⟩
  | @short e _ h =>
    have he : CharSyntax ['\\', e] := .short (by simp [h])
    exact ⟨[_], by simpa using he, rfl⟩
  | @unit a b c d _ h =>
    have hunit : CharSyntax ['\\', 'u', a, b, c, d] := .unit (by simp [h])
    exact ⟨[_], by simpa using hunit, rfl⟩
  | @pair a b c d a' b' c' d' _ _ h h' _ _ =>
    have hunit : CharSyntax ['\\', 'u', a, b, c, d] := .unit (by simp [h])
    have hunit' : CharSyntax ['\\', 'u', a', b', c', d'] := .unit (by simp [h'])
    exact ⟨[_, _], by simpa using ⟨hunit, hunit'⟩, rfl⟩

theorem StringText.stringSyntax {s : String} {text : List Char} (h : StringText s text) :
    StringSyntax text := by
  obtain ⟨parts, hparts, rfl⟩ := h
  generalize s.toList = cs at hparts
  have hsyntax : ∃ parts' : List (List Char), (∀ p ∈ parts', CharSyntax p) ∧
      parts.flatten = parts'.flatten := by
    induction hparts with
    | nil => exact ⟨[], by simp, rfl⟩
    | cons hpart _ ih =>
      obtain ⟨first, hfirst, rfl⟩ := hpart.parts
      obtain ⟨others, hothers, heq⟩ := ih
      refine ⟨first ++ others, ?_, ?_⟩
      . rw [List.forall_mem_append]
        exact ⟨hfirst, hothers⟩
      . rw [List.flatten_cons, List.flatten_append, heq]
  obtain ⟨parts', hparts', heq⟩ := hsyntax
  exact ⟨parts', hparts', by rw [heq]⟩

theorem codeUnit?_digits {n : Nat} (hn : n < 256) :
    codeUnit? '0' '0' (Nat.digitChar (n / 16)) (Nat.digitChar (n % 16)) = some n := by
  have hzero : hexDigit? '0' = some 0 := by decide
  have hhigh := hexDigit?_digitChar (n / 16) (by omega)
  have hlow := hexDigit?_digitChar (n % 16) (by omega)
  simp only [codeUnit?, hzero, hhigh, hlow, Option.bind_eq_bind, Option.bind_some, pure]
  rw [Option.some.injEq]
  omega

theorem charText_encodeChar (c : Char) : CharText c (Quoted.encodeChar c) := by
  unfold Quoted.encodeChar
  split
  case h_8 hquote hbackslash _ _ _ _ _ =>
    split
    . next hcontrol => exact .unit (codeUnit?_digits (by omega))
    . next hplain => exact .plain hquote hbackslash hplain
  all_goals exact .short rfl

theorem stringText_encode (s : String) : StringText s (Quoted.encode s) := by
  refine ⟨s.toList.map Quoted.encodeChar, ?_, ?_⟩
  . rw [List.forall₂_map_right_iff, List.forall₂_same]
    intro c _
    exact charText_encodeChar c
  . unfold Quoted.encode Quoted.encodeChars
    rw [List.flatMap_def, List.cons_append]

def Digits (text : List Char) : Prop := text ≠ [] ∧ ∀ c ∈ text, c.isDigit = true

inductive FractionSyntax : List Char → Prop where
  | absent : FractionSyntax []
  | present {ds : List Char} (h : Digits ds) : FractionSyntax ('.' :: ds)

inductive ExponentSyntax : List Char → Prop where
  | absent : ExponentSyntax []
  | present {e : Char} {sign ds : List Char} (he : e = 'e' ∨ e = 'E')
      (hsign : sign ∈ [[], ['+'], ['-']]) (h : Digits ds) : ExponentSyntax (e :: (sign ++ ds))

-- A zero in front has to stand alone.
inductive NumberSyntax : List Char → Prop where
  | mk {sign whole fraction exponent : List Char} (hsign : sign ∈ [[], ['-']])
      (hwhole : Digits whole) (hzero : whole.head? = some '0' → whole = ['0'])
      (hfraction : FractionSyntax fraction) (hexponent : ExponentSyntax exponent) :
      NumberSyntax (sign ++ (whole ++ (fraction ++ exponent)))

theorem Digits.someDigits {ds rest : List Char} (h : Digits ds)
    (hrest : ∀ c ∈ rest.head?, c.isDigit = false) :
    someDigits (ds ++ rest) = .ok (ds, rest) :=
  someDigits_append h.2 h.1 hrest

theorem FractionSyntax.fraction {text : List Char} (h : FractionSyntax text) :
    ∃ digits, ∀ {rest : List Char}, (∀ c ∈ rest.head?, c.isDigit = false ∧ c ≠ '.') →
      Lexeme.fraction (text ++ rest) = .ok (digits, rest) := by
  cases h with
  | absent =>
    refine ⟨none, ?_⟩
    intro rest hrest
    rw [List.nil_append]
    unfold Lexeme.fraction
    split
    . simp at hrest
    . rfl
  | @present ds h =>
    refine ⟨some ds, ?_⟩
    intro rest hrest
    simp only [List.cons_append, Lexeme.fraction]
    rw [h.someDigits fun c hc => (hrest c hc).1]
    rfl

theorem Digits.exponentSign {ds : List Char} (h : Digits ds) {sign : List Char}
    (hsign : sign ∈ [[], ['+'], ['-']]) :
    ∃ negative, ∀ rest, exponentSign (sign ++ (ds ++ rest)) = (negative, ds ++ rest) := by
  simp only [List.mem_cons, List.not_mem_nil, or_false] at hsign
  obtain rfl | rfl | rfl := hsign
  . cases ds with
    | nil => exact absurd rfl h.1
    | cons d ds =>
      have hd := h.2 d (by simp)
      refine ⟨false, ?_⟩
      intro rest
      unfold Lexeme.exponentSign
      split
      . simp_all
      . simp_all
      . rfl
  . exact ⟨false, fun _ => rfl⟩
  . exact ⟨true, fun _ => rfl⟩

theorem Lexeme.exponent_mark {c : Char} (hc : c = 'e' ∨ c = 'E') {cs rest : List Char}
    {e : Option (Bool × List Char)} :
    exponent (c :: cs) = .ok (e, rest) ↔
      ∃ ds, someDigits (exponentSign cs).2 = .ok (ds, rest) ∧
        some ((exponentSign cs).1, ds) = e := by
  obtain rfl | rfl := hc <;> simp [exponent, bind_eq_ok_iff]

theorem ExponentSyntax.exponent {text : List Char} (h : ExponentSyntax text) :
    ∃ value, ∀ {rest : List Char}, EndsNumber rest →
      Lexeme.exponent (text ++ rest) = .ok (value, rest) := by
  cases h with
  | absent => exact ⟨none, exponent_of_endsNumber⟩
  | @present e sign ds he hsign h =>
    obtain ⟨negative, hnegative⟩ := h.exponentSign hsign
    refine ⟨some (negative, ds), ?_⟩
    intro rest hrest
    rw [List.cons_append, List.append_assoc, Lexeme.exponent_mark he, hnegative]
    exact ⟨ds, h.someDigits fun c hc => (hrest c hc).1, rfl⟩

theorem ExponentSyntax.head {text rest : List Char} (h : ExponentSyntax text)
    (hrest : EndsNumber rest) : ∀ c ∈ (text ++ rest).head?, c.isDigit = false ∧ c ≠ '.' := by
  cases h with
  | absent =>
    intro c hc
    exact ⟨(hrest c hc).1, (hrest c hc).2.1⟩
  | present he _ _ =>
    intro c hc
    rw [List.cons_append, List.head?_cons, Option.mem_some_iff] at hc
    obtain rfl | rfl := he <;> rw [← hc] <;> decide

theorem FractionSyntax.head {text rest : List Char} (h : FractionSyntax text)
    (hrest : ∀ c ∈ rest.head?, c.isDigit = false) :
    ∀ c ∈ (text ++ rest).head?, c.isDigit = false := by
  cases h with
  | absent => exact hrest
  | present _ => simp

theorem Digits.wholeDigits {ds rest : List Char} (h : Digits ds)
    (hzero : ds.head? = some '0' → ds = ['0']) (hrest : ∀ c ∈ rest.head?, c.isDigit = false) :
    wholeDigits (ds ++ rest) = .ok (ds, rest) := by
  unfold Lexeme.wholeDigits
  rw [h.someDigits hrest]
  simp only [bind, Except.bind]
  split
  . simp at hzero
  . rfl

theorem Digits.literal {whole : List Char} (h : Digits whole) {sign : List Char}
    (hsign : sign ∈ [[], ['-']]) :
    ∃ negative, ∀ cs, literal (sign ++ (whole ++ cs)) = (do
      let (whole, rest) ← Lexeme.wholeDigits (whole ++ cs)
      let (fraction, rest) ← fraction rest
      let (exponent, rest) ← exponent rest
      .ok (⟨negative, whole, fraction, exponent⟩, rest)) := by
  simp only [List.mem_cons, List.not_mem_nil, or_false] at hsign
  obtain rfl | rfl := hsign
  . refine ⟨false, ?_⟩
    cases whole with
    | nil => exact absurd rfl h.1
    | cons d ds =>
      have hd := h.2 d (by simp)
      have hminus : d ≠ '-' := by
        rintro rfl
        contradiction
      simp [Lexeme.literal, hminus]
  . exact ⟨true, fun _ => rfl⟩

theorem NumberSyntax.literal {text : List Char} (h : NumberSyntax text) :
    ∃ l, ∀ {rest : List Char}, EndsNumber rest → literal (text ++ rest) = .ok (l, rest) := by
  obtain @⟨sign, whole, fraction, exponent, hsign, hwhole, hzero, hfraction, hexponent⟩ := h
  obtain ⟨e, he⟩ := hexponent.exponent
  obtain ⟨f, hf⟩ := hfraction.fraction
  obtain ⟨negative, hl⟩ := hwhole.literal hsign
  refine ⟨⟨negative, whole, f, e⟩, ?_⟩
  intro rest hrest
  have hhead := hexponent.head hrest
  have hw := hwhole.wholeDigits hzero (hfraction.head fun c hc => (hhead c hc).1)
  simp only [List.append_assoc]
  rw [hl]
  simp only [bind, Except.bind, hw, hf hhead, he hrest]

theorem NumberSyntax.skipNumber {text rest : List Char} (h : NumberSyntax text)
    (hrest : EndsNumber rest) : skipNumber (text ++ rest) = .ok rest := by
  obtain ⟨l, hl⟩ := h.literal
  unfold Lexeme.skipNumber
  rw [hl hrest]

inductive Behind (closing : Char) : List (List Char) → List Char → Prop where
  | nil {space : List Char} (hspace : space.all isSpace) : Behind closing [] (space ++ [closing])
  | cons {after before item tail : List Char} {items : List (List Char)}
      (hafter : after.all isSpace) (hbefore : before.all isSpace)
      (htail : Behind closing items tail) :
      Behind closing (item :: items) (after ++ ',' :: (before ++ (item ++ tail)))

inductive Inside (closing : Char) : List (List Char) → List Char → Prop where
  | nil {space : List Char} (hspace : space.all isSpace) : Inside closing [] (space ++ [closing])
  | cons {before item tail : List Char} {items : List (List Char)} (hbefore : before.all isSpace)
      (htail : Behind closing items tail) :
      Inside closing (item :: items) (before ++ (item ++ tail))

def ArrayText (items : List (List Char)) (text : List Char) : Prop :=
  ∃ inside, Inside ']' items inside ∧ text = '[' :: inside

def MemberText (m : List Char × List Char) (text : List Char) : Prop :=
  ∃ after before, after.all isSpace ∧ before.all isSpace ∧
    text = m.1 ++ (after ++ ':' :: (before ++ m.2))

def ObjectText (members : List (List Char × List Char)) (text : List Char) : Prop :=
  ∃ items inside, List.Forall₂ MemberText members items ∧ Inside '\x7d' items inside ∧
    text = '\x7b' :: inside

def MemberItem (m : String × List Char) (item : List Char) : Prop :=
  ∃ key, StringText m.1 key ∧ MemberText (key, m.2) item

def MembersText (members : List (String × List Char)) (text : List Char) : Prop :=
  ∃ items inside, List.Forall₂ MemberItem members items ∧ Inside '\x7d' items inside ∧
    text = '\x7b' :: inside

inductive ValueSyntax : List Char → Prop where
  | null : ValueSyntax ['n', 'u', 'l', 'l']
  | true : ValueSyntax ['t', 'r', 'u', 'e']
  | false : ValueSyntax ['f', 'a', 'l', 's', 'e']
  | number {text : List Char} (h : NumberSyntax text) : ValueSyntax text
  | string {text : List Char} (h : StringSyntax text) : ValueSyntax text
  | array {items : List (List Char)} {text : List Char} (hitems : ∀ item ∈ items, ValueSyntax item)
      (h : ArrayText items text) : ValueSyntax text
  | object {members : List (List Char × List Char)} {text : List Char}
      (hkeys : ∀ m ∈ members, StringSyntax m.1) (hvalues : ∀ m ∈ members, ValueSyntax m.2)
      (h : ObjectText members text) : ValueSyntax text

theorem NumberSyntax.head {text : List Char} (h : NumberSyntax text) :
    ∃ c cs, text = c :: cs ∧ (c = '-' ∨ c.isDigit = true) := by
  obtain @⟨sign, whole, fraction, exponent, hsign, hwhole, _⟩ := h
  simp only [List.mem_cons, List.not_mem_nil, or_false] at hsign
  obtain rfl | rfl := hsign
  . cases whole with
    | nil => exact absurd rfl hwhole.1
    | cons d ds => exact ⟨d, _, rfl, .inr (hwhole.2 d (by simp))⟩
  . exact ⟨'-', _, rfl, .inl rfl⟩

theorem StringSyntax.starts {text : List Char} (h : StringSyntax text) : startsValue text := by
  obtain ⟨_, _, rfl⟩ := h
  rfl

theorem ValueSyntax.starts {text : List Char} (h : ValueSyntax text) : startsValue text := by
  cases h with
  | null => rfl
  | true => rfl
  | false => rfl
  | number h =>
    obtain ⟨c, cs, rfl, hc⟩ := h.head
    exact startsValue_of_number hc cs
  | string h => exact h.starts
  | array _ h =>
    obtain ⟨_, _, rfl⟩ := h
    rfl
  | object _ _ h =>
    obtain ⟨_, _, _, _, rfl⟩ := h
    rfl

theorem MemberText.head {m : List Char × List Char} {item : List Char} (h : MemberText m item)
    (hkey : StringSyntax m.1) : item.head? = some '"' := by
  obtain ⟨after, before, _, _, rfl⟩ := h
  obtain ⟨body, hbody, _⟩ := hkey.skipString
  rw [hbody]
  rfl

theorem Behind.endsNumber {closing : Char} (hclosing : EndsNumber [closing])
    {items : List (List Char)} {tail : List Char} (h : Behind closing items tail)
    (rest : List Char) : EndsNumber (tail ++ rest) := by
  cases h with
  | nil hspace =>
    rw [List.append_assoc]
    apply endsNumber_append_of_space hspace
    simpa using hclosing
  | cons hafter _ _ =>
    rw [List.append_assoc]
    apply endsNumber_append_of_space hafter
    simp

theorem Behind.length_lt {closing : Char} {items : List (List Char)} {tail : List Char}
    (h : Behind closing items tail) : items.length < tail.length := by
  induction h with
  | nil _ => simp
  | cons _ _ _ ih =>
    simp only [List.length_cons, List.length_append]
    omega

end SchemaMigration.Json
