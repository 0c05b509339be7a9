import SchemaMigration.Json.Reader

/-!
This module contains the reading of written strings and integers. What is read is what was written,
and the reading stops right behind it, whatever comes next.
-/

namespace SchemaMigration

namespace Json.Lexeme

theorem skipSpace_append {space : List Char} (hspace : space.all isSpace) (cs : List Char) :
    skipSpace (space ++ cs) = skipSpace cs := by
  unfold skipSpace
  rw [List.dropWhile_append_of_pos]
  simpa using hspace

theorem skipSpace_cons {c : Char} (h : isSpace c = false) (cs : List Char) :
    skipSpace (c :: cs) = c :: cs := by
  unfold skipSpace
  rw [List.dropWhile_cons_of_neg]
  simp [h]

theorem hexDigit?_digitChar : ∀ n < 16, hexDigit? (Nat.digitChar n) = some n := by
  decide

def consChar (c : Char) (read : List Char × List Char) : List Char × List Char :=
  (c :: read.1, read.2)

theorem bind_consChar (c : Char) (x : Except Error (List Char × List Char)) :
    (x >>= fun read => .ok (c :: read.1, read.2)) = x.map (consChar c) := by
  cases x <;> rfl

theorem stringChars_of_plain {c : Char} (hquote : c ≠ '"') (hbackslash : c ≠ '\\')
    (hcontrol : ¬ c.toNat < 0x20) (rest : List Char) :
    stringChars 0 (c :: rest) = (stringChars 0 rest).map (consChar c) := by
  rw [stringChars]
  . rw [if_neg hcontrol]
    apply bind_consChar
  . intro h
    exact hquote h
  . intro h
    exact hbackslash h

theorem stringChars_of_escape {c : Char} {size : Nat} {cs : List Char}
    (h : escape cs = .ok (c, size)) :
    stringChars 0 ('\\' :: cs) = (stringChars size cs).map (consChar c) := by
  rw [stringChars]
  rw [h]
  apply bind_consChar

theorem escape_of_short {e c : Char} (he : e ≠ 'u') (h : shortEscape? e = some c)
    (rest : List Char) : escape (e :: rest) = .ok (c, 1) := by
  unfold escape
  split
  . contradiction
  . next heq =>
    rw [List.cons.injEq] at heq
    exact absurd heq.1 he
  . next heq =>
    rw [List.cons.injEq] at heq
    rw [← heq.1, h]

theorem stringChars_of_short {e c : Char} (he : e ≠ 'u') (h : shortEscape? e = some c)
    (rest : List Char) :
    stringChars 0 ('\\' :: e :: rest) = (stringChars 0 rest).map (consChar c) := by
  rw [stringChars_of_escape (escape_of_short he h rest)]
  rw [stringChars]

def EndsNumber (rest : List Char) : Prop :=
  ∀ c ∈ rest.head?, c.isDigit = false ∧ c ≠ '.' ∧ c ≠ 'e' ∧ c ≠ 'E'

@[simp]
theorem endsNumber_nil : EndsNumber [] := by
  simp [EndsNumber]

@[simp]
theorem endsNumber_cons {c : Char} {rest : List Char} :
    EndsNumber (c :: rest) ↔ c.isDigit = false ∧ c ≠ '.' ∧ c ≠ 'e' ∧ c ≠ 'E' := by
  simp [EndsNumber]

theorem someDigits_append {digits rest : List Char} (hdigits : ∀ c ∈ digits, c.isDigit = true)
    (hsome : digits ≠ []) (hrest : ∀ c ∈ rest.head?, c.isDigit = false) :
    someDigits (digits ++ rest) = .ok (digits, rest) := by
  have hfirst : rest.takeWhile Char.isDigit = [] ∧ rest.dropWhile Char.isDigit = rest := by
    cases rest with
    | nil => simp
    | cons c rest =>
      have hc := hrest c rfl
      simp [hc]
  cases digits with
  | nil => exact absurd rfl hsome
  | cons c digits =>
    unfold someDigits
    rw [List.cons_append]
    dsimp only
    rw [if_pos (hdigits c (by simp))]
    rw [← List.cons_append]
    rw [List.takeWhile_append_of_pos hdigits, List.dropWhile_append_of_pos hdigits]
    rw [hfirst.1, hfirst.2, List.append_nil]

-- Written numbers have no zeros in front.
theorem head?_toDigits {n : Nat} (h : 0 < n) : (Nat.toDigits 10 n).head? ≠ some '0' := by
  induction n using Nat.strongRecOn with
  | ind n ih =>
    by_cases hlt : n < 10
    . rw [Nat.toDigits_of_lt_base hlt]
      simp
      omega
    . rw [Nat.toDigits_of_base_le (by decide) (by omega)]
      rw [List.head?_append, Option.or_of_isSome]
      . exact ih (n / 10) (by omega) (by omega)
      . simp

theorem toDigits_ne_zero_cons {n : Nat} {c : Char} {cs : List Char} :
    Nat.toDigits 10 n ≠ '0' :: c :: cs := by
  intro h
  by_cases hn : 0 < n
  . apply head?_toDigits hn
    rw [h]
    rfl
  . obtain rfl : n = 0 := by omega
    simp at h

theorem wholeDigits_toDigits (n : Nat) {rest : List Char} (hrest : EndsNumber rest) :
    wholeDigits (Nat.toDigits 10 n ++ rest) = .ok (Nat.toDigits 10 n, rest) := by
  unfold wholeDigits
  rw [someDigits_append _ Nat.toDigits_ne_nil (fun c hc => (hrest c hc).1)]
  . simp only [bind, Except.bind]
    split
    . next c cs heq => exact absurd heq toDigits_ne_zero_cons
    . rfl
  . intro c hc
    exact Nat.isDigit_of_mem_toDigits (by decide) (by decide) hc

theorem fraction_of_endsNumber {rest : List Char} (hrest : EndsNumber rest) :
    fraction rest = .ok (none, rest) := by
  unfold fraction
  split
  . simp at hrest
  . rfl

theorem exponent_of_endsNumber {rest : List Char} (hrest : EndsNumber rest) :
    exponent rest = .ok (none, rest) := by
  unfold exponent
  split
  . simp at hrest
  . simp at hrest
  . rfl

theorem literal_unsigned (n : Nat) {rest : List Char} (hrest : EndsNumber rest) :
    literal (Nat.toDigits 10 n ++ rest) = .ok (⟨false, Nat.toDigits 10 n, none, none⟩, rest) := by
  have hsign : ∀ cs, Nat.toDigits 10 n ++ rest ≠ '-' :: cs := by
    intro cs h
    cases hdigits : Nat.toDigits 10 n with
    | nil => exact Nat.toDigits_ne_nil hdigits
    | cons c digits =>
      have hc : c.isDigit = true := by
        apply Nat.isDigit_of_mem_toDigits (b := 10) (n := n) (by decide) (by decide)
        simp [hdigits]
      rw [hdigits, List.cons_append, List.cons.injEq] at h
      rw [h.1] at hc
      contradiction
  unfold literal
  split
  next hcs heq =>
    split at heq
    . next cs hcs => exact absurd hcs (hsign cs)
    . rw [Prod.mk.injEq] at heq
      rw [← heq.1, ← heq.2]
      rw [wholeDigits_toDigits n hrest]
      simp only [bind, Except.bind]
      rw [fraction_of_endsNumber hrest]
      dsimp only
      rw [exponent_of_endsNumber hrest]

theorem literal_minus (n : Nat) {rest : List Char} (hrest : EndsNumber rest) :
    literal ('-' :: Nat.toDigits 10 n ++ rest) =
      .ok (⟨true, Nat.toDigits 10 n, none, none⟩, rest) := by
  unfold literal
  simp only [List.cons_append]
  rw [wholeDigits_toDigits n hrest]
  simp only [bind, Except.bind]
  rw [fraction_of_endsNumber hrest]
  dsimp only
  rw [exponent_of_endsNumber hrest]

theorem integer?_unsigned {n : Nat} (h : n < 0x10000000000000000) :
    (Literal.integer? ⟨false, Nat.toDigits 10 n, none, none⟩) = some (n : Int) := by
  unfold Literal.integer? ofDigits
  simp [Nat.ofDigitChars_ten_toDigits, h]

theorem integer?_minus {n : Nat} (hpos : 0 < n) (h : n ≤ 0x8000000000000000) :
    (Literal.integer? ⟨true, Nat.toDigits 10 n, none, none⟩) = some (-(n : Int)) := by
  unfold Literal.integer? ofDigits
  simp [Nat.ofDigitChars_ten_toDigits, h, hpos]

end Json.Lexeme

def Number.InRange : Number → Prop
  | .integer i => -0x8000000000000000 ≤ i ∧ i < 0x10000000000000000
  | .float _ => True

namespace Json.Lexeme

theorem number_text {i : Int} (hrange : (Number.integer i).InRange) {rest : List Char}
    (hrest : EndsNumber rest) :
    number ((Number.integer i).text ++ rest) = .ok (.integer i, rest) := by
  unfold Number.InRange at hrange
  unfold number
  cases i with
  | ofNat n =>
    rw [Int.ofNat_eq_natCast] at hrange
    simp only [Number.text, literal_unsigned n hrest, bind, Except.bind, Literal.number?]
    rw [integer?_unsigned (by omega)]
    rfl
  | negSucc n =>
    simp only [Number.text, literal_minus (n + 1) hrest, bind, Except.bind, Literal.number?]
    rw [integer?_minus (by omega) (by omega)]
    rfl

end Json.Lexeme

end SchemaMigration
