import SchemaMigration.Json.Lexeme
import SchemaMigration.Json.Quoted
import Mathlib.Data.List.Chain

/-!
This module contains the reading of literals between double quotes, as scripts have them, and what
the strings of JSON denote when they are taken for such literals. The escapes of scripts are others
than those of JSON, and a dollar sign may start a variable, whose value is put in its place.
-/

namespace SchemaMigration.Text.Interpolated

open Json

def bytes (cs : List Char) : List UInt8 := cs.flatMap String.utf8EncodeChar

def startsName (c : Char) : Bool := c.isAlpha || c == '_' || 0x80 ≤ c.toNat

def interpolates (c next : Char) : Bool :=
  c == '$' && (startsName next || next == '\x7b') || c == '\x7b' && next == '$'

def shortEscape? : Char → Option Char
  | 'n' => some '\n'
  | 't' => some '\t'
  | 'r' => some '\r'
  | 'v' => some '\x0b'
  | 'e' => some '\x1b'
  | 'f' => some '\x0c'
  | '\\' => some '\\'
  | '$' => some '$'
  | '"' => some '"'
  | _ => none

def isOctal (c : Char) : Bool := '0' ≤ c && c ≤ '7'

def isHex (c : Char) : Bool := (Lexeme.hexDigit? c).isSome

def ofHex (digits : List Char) : Nat :=
  digits.foldl (fun n c => 16 * n + (Lexeme.hexDigit? c).getD 0) 0

def codePoint (cs : List Char) : Option (List UInt8 × Nat) :=
  let digits := cs.takeWhile isHex
  if digits ≠ [] ∧ (ofHex digits).isValidChar ∧ cs[digits.length]? = some '\x7d' then
    some (bytes [Char.ofNat (ofHex digits)], digits.length + 3)
  else
    none

def escape (cs : List Char) : Option (List UInt8 × Nat) :=
  let octal := (cs.take 3).takeWhile isOctal
  let hex := ((cs.drop 1).take 2).takeWhile isHex
  if octal ≠ [] then
    some ([UInt8.ofNat (Nat.ofDigitChars 8 octal 0)], octal.length)
  else if cs.head? = some 'x' ∧ hex ≠ [] then
    some ([UInt8.ofNat (ofHex hex)], hex.length + 1)
  else if cs.take 2 = ['u', '\x7b'] then
    codePoint (cs.drop 2)
  else
    match cs.head?.bind shortEscape? with
    | some c => some (bytes [c], 1)
    | none => some (bytes ['\\'], 0)

abbrev Scanned := Option (List UInt8 × List Char)

def Scanned.prepend (value : List UInt8) (scanned : Scanned) : Scanned :=
  scanned.map fun (values, rest) => (value ++ values, rest)

/--
Read a literal behind its opening quote, where a number of characters has been read before. There is
no result if the literal has a variable in it, because then it denotes no string of its own.
-/
def scan : Nat → List Char → Scanned
  | _, [] => none
  | size + 1, _ :: cs => scan size cs
  | 0, '"' :: cs => some ([], cs)
  | 0, '\\' :: cs => (escape cs).bind fun (value, size) => (scan size cs).prepend value
  | 0, c :: cs =>
    if cs.head?.any (interpolates c) then none else (scan 0 cs).prepend (bytes [c])

def read : List Char → Scanned
  | '"' :: cs => scan 0 cs
  | _ => none

example : (read "\"a\\x41\\101\\u\x7be9\x7d\\q$1\";".toList) =
    some (bytes "aAAé\\q$1".toList, [';']) := by decide

def isKept (c : Char) : Bool := c.toNat < 0x20 && !(['\t', '\n', '\x0c', '\r'].contains c)

structure Plain (cs : List Char) : Prop where
  steady : cs.IsChain fun c next => interpolates c next = false
  known : ∀ c ∈ cs, isKept c = false

theorem plain_iff {cs : List Char} :
    Plain cs ↔
      (cs.IsChain fun c next => interpolates c next = false) ∧ cs.any isKept = false := by
  simp only [List.any_eq_false, Bool.not_eq_true]
  constructor
  . intro h
    exact ⟨h.steady, h.known⟩
  . intro h
    exact ⟨h.1, h.2⟩

instance (cs : List Char) : Decidable (Plain cs) := decidable_of_iff _ plain_iff.symm

def denoted (c : Char) : List UInt8 := bytes (if isKept c then Quoted.encodeChar c else [c])

namespace Scanned

theorem prepend_nil (scanned : Scanned) : scanned.prepend [] = scanned := by
  cases scanned <;> rfl

theorem prepend_prepend (value value' : List UInt8) (scanned : Scanned) :
    (scanned.prepend value').prepend value = scanned.prepend (value ++ value') := by
  cases scanned <;> simp [prepend]

theorem prepend_eq_some_iff {value values : List UInt8} {scanned : Scanned} {rest : List Char} :
    scanned.prepend value = some (values, rest) ↔
      ∃ values', scanned = some (values', rest) ∧ values = value ++ values' := by
  unfold prepend
  rw [Option.map_eq_some_iff]
  simp [eq_comm]

end Scanned

theorem bytes_append (cs cs' : List Char) : bytes (cs ++ cs') = bytes cs ++ bytes cs' :=
  List.flatMap_append

theorem scan_of_plain {c : Char} (hquote : c ≠ '"') (hbackslash : c ≠ '\\') (cs : List Char) :
    scan 0 (c :: cs) =
      if cs.head?.any (interpolates c) then none else (scan 0 cs).prepend (bytes [c]) := by
  rw [scan]
  . intro h
    exact hquote h
  . intro h
    exact hbackslash h

theorem scan_of_escape {cs : List Char} {value : List UInt8} {size : Nat}
    (h : escape cs = some (value, size)) :
    scan 0 ('\\' :: cs) = (scan size cs).prepend value := by
  rw [scan, h]
  rfl

theorem any_interpolates_eq_false {c : Char} (hdollar : c ≠ '$') (hbrace : c ≠ '\x7b')
    (next : Option Char) : next.any (interpolates c) = false := by
  cases next <;> simp [interpolates, hdollar, hbrace]

theorem scan_append {ps : List Char} (h : ∀ c ∈ ps, c ∉ ['"', '\\', '$', '\x7b']) (cs : List Char) :
    scan 0 (ps ++ cs) = (scan 0 cs).prepend (bytes ps) := by
  induction ps with
  | nil => exact (scan 0 cs).prepend_nil.symm
  | cons c ps ih =>
    rw [List.forall_mem_cons] at h
    obtain ⟨hc, hps⟩ := h
    simp only [List.mem_cons, List.not_mem_nil, or_false, not_or] at hc
    obtain ⟨hquote, hbackslash, hdollar, hbrace⟩ := hc
    rw [List.cons_append, scan_of_plain hquote hbackslash, ih hps]
    rw [any_interpolates_eq_false hdollar hbrace, if_neg Bool.false_ne_true]
    rw [Scanned.prepend_prepend, ← bytes_append]
    rfl

theorem escape_of_short {e c : Char} (h : shortEscape? e = some c) (hoctal : isOctal e = false)
    (hx : e ≠ 'x') (hu : e ≠ 'u') (cs : List Char) : escape (e :: cs) = some (bytes [c], 1) := by
  unfold escape
  simp [hoctal, hx, hu, h]

theorem escape_of_kept {ps : List Char} (h : ps = ['b'] ∨ ∃ a b, ps = ['u', '0', '0', a, b])
    (cs : List Char) : escape (ps ++ cs) = some (bytes ['\\'], 0) := by
  obtain rfl | ⟨a, b, rfl⟩ := h
  . rfl
  . rfl

theorem scan_of_short {e c : Char} (h : shortEscape? e = some c) (hoctal : isOctal e = false)
    (hx : e ≠ 'x') (hu : e ≠ 'u') (cs : List Char) :
    scan 0 ('\\' :: e :: cs) = (scan 0 cs).prepend (bytes [c]) := by
  rw [scan_of_escape (escape_of_short h hoctal hx hu cs), scan]

theorem control_of_kept {c : Char} (h : isKept c = true) : c.toNat < 0x20 := by
  simp only [isKept, Bool.and_eq_true, decide_eq_true_eq] at h
  exact h.1

theorem encodeChar_of_kept {c : Char} (h : isKept c = true) :
    ∃ ps, Quoted.encodeChar c = '\\' :: ps ∧ (ps = ['b'] ∨ ∃ a b, ps = ['u', '0', '0', a, b]) ∧
      ∀ p ∈ ps, p ∉ ['"', '\\', '$', '\x7b'] := by
  have hdigit : ∀ d < 16, Nat.digitChar d ∉ ['"', '\\', '$', '\x7b'] := by decide
  unfold Quoted.encodeChar
  split
  case h_3 => exact ⟨_, rfl, .inl rfl, by simp⟩
  case h_8 =>
    have hcontrol := control_of_kept h
    rw [if_pos hcontrol]
    refine ⟨_, rfl, .inr ⟨_, _, rfl⟩, ?_⟩
    simp only [List.forall_mem_cons]
    refine ⟨by decide, by decide, by decide, hdigit _ (by omega), hdigit _ (by omega), by simp⟩
  all_goals contradiction

theorem scan_encodeChar_of_kept {c : Char} (h : isKept c = true) (cs : List Char) :
    scan 0 (Quoted.encodeChar c ++ cs) = (scan 0 cs).prepend (bytes (Quoted.encodeChar c)) := by
  obtain ⟨ps, hps, hescape, hplain⟩ := encodeChar_of_kept h
  rw [hps, List.cons_append]
  rw [scan_of_escape (escape_of_kept hescape cs), scan_append hplain]
  rw [Scanned.prepend_prepend, ← bytes_append]
  rfl

theorem scan_encodeChar (c : Char) (cs : List Char) :
    scan 0 (Quoted.encodeChar c ++ cs) =
      if cs.head?.any (interpolates c) then none else (scan 0 cs).prepend (denoted c) := by
  unfold denoted
  cases hkept : isKept c with
  | true =>
    have hnone : cs.head?.any (interpolates c) = false := by
      apply any_interpolates_eq_false
      . rintro rfl
        contradiction
      . rintro rfl
        contradiction
    rw [hnone, if_neg Bool.false_ne_true, if_pos rfl]
    exact scan_encodeChar_of_kept hkept cs
  | false =>
    rw [if_neg Bool.false_ne_true]
    unfold Quoted.encodeChar
    split
    case h_3 => contradiction
    case h_8 hquote hbackslash _ hformFeed hnewline hreturn htab =>
      have hcontrol : ¬c.toNat < 0x20 := by
        intro hcontrol
        simp [isKept, hcontrol] at hkept
        exact hreturn (hkept htab hnewline hformFeed)
      rw [if_neg hcontrol]
      exact scan_of_plain hquote hbackslash cs
    all_goals
      rw [any_interpolates_eq_false (by decide) (by decide), if_neg Bool.false_ne_true]
      exact scan_of_short rfl rfl (by decide) (by decide) cs

-- What holds of all control characters can be checked for one after the other.
theorem of_control {p : Char → Prop} (h : ∀ n < 0x20, p (Char.ofNat n)) {c : Char}
    (hc : c.toNat < 0x20) : p c := by
  have hp := h c.toNat hc
  rwa [Char.ofNat_toNat] at hp

theorem startsName_of_control {c : Char} (h : c.toNat < 0x20) : startsName c = false :=
  of_control (p := fun c => startsName c = false) (by decide) h

theorem interpolates_of_escaped {next : Char} (h : next = '"' ∨ next = '\\' ∨ next.toNat < 0x20)
    (c : Char) : interpolates c next = false := by
  have hname : startsName next = false := by
    obtain rfl | rfl | hcontrol := h
    . decide
    . decide
    . exact startsName_of_control hcontrol
  have hdollar : next ≠ '$' := by
    rintro rfl
    simp at h
  have hbrace : next ≠ '\x7b' := by
    rintro rfl
    simp at h
  simp [interpolates, hname, hdollar, hbrace]

theorem head_encodeChar (c : Char) : ∃ first others, Quoted.encodeChar c = first :: others ∧
    ∀ c', interpolates c' first = interpolates c' c := by
  have hbackslash := interpolates_of_escaped (.inr (.inl rfl))
  unfold Quoted.encodeChar
  split
  case h_8 =>
    split
    . next hcontrol =>
      refine ⟨_, _, rfl, ?_⟩
      intro c'
      rw [hbackslash, interpolates_of_escaped (.inr (.inr hcontrol))]
    . exact ⟨_, _, rfl, fun _ => rfl⟩
  all_goals
    refine ⟨_, _, rfl, ?_⟩
    intro c'
    exact (hbackslash c').trans (interpolates_of_escaped (by decide) c').symm

-- A character starts a variable in what is written just if it does so itself.
theorem any_head?_encodeChars (c : Char) (cs rest : List Char) :
    (Quoted.encodeChars cs ++ '"' :: rest).head?.any (interpolates c) =
      cs.head?.any (interpolates c) := by
  cases cs with
  | nil => exact interpolates_of_escaped (.inl rfl) c
  | cons next cs =>
    obtain ⟨first, others, hfirst, heq⟩ := head_encodeChar next
    rw [Quoted.encodeChars_cons, hfirst]
    exact heq c

theorem scan_encodeChars_eq_some_iff {cs rest rest' : List Char} {values : List UInt8} :
    scan 0 (Quoted.encodeChars cs ++ '"' :: rest) = some (values, rest') ↔
      cs.IsChain (fun c next => interpolates c next = false) ∧ values = cs.flatMap denoted ∧
        rest' = rest := by
  induction cs generalizing values with
  | nil =>
    rw [Quoted.encodeChars_nil, List.nil_append, scan]
    constructor
    . rintro ⟨⟩
      exact ⟨.nil, rfl, rfl⟩
    . rintro ⟨_, rfl, rfl⟩
      rfl
  | cons c cs ih =>
    rw [Quoted.encodeChars_cons, List.append_assoc, scan_encodeChar, any_head?_encodeChars]
    rw [List.isChain_cons]
    have hhead : (∀ next ∈ cs.head?, interpolates c next = false) ↔
        cs.head?.any (interpolates c) = false := by
      cases cs.head? <;> simp
    rw [hhead]
    split
    . next hstarts => simp [hstarts]
    . next hplain =>
      rw [Bool.not_eq_true] at hplain
      rw [Scanned.prepend_eq_some_iff, hplain]
      simp only [ih, List.flatMap_cons, true_and]
      constructor
      . rintro ⟨values', ⟨hchain, rfl, rfl⟩, rfl⟩
        exact ⟨hchain, rfl, rfl⟩
      . rintro ⟨hchain, rfl, rfl⟩
        exact ⟨_, ⟨hchain, rfl, rfl⟩, rfl⟩

theorem bytes_of_control {c : Char} (h : c.toNat < 0x20) :
    bytes [c] = [UInt8.ofNat c.toNat] ∧ UInt8.ofNat c.toNat ≠ 0x5c :=
  of_control (p := fun c => bytes [c] = [UInt8.ofNat c.toNat] ∧ UInt8.ofNat c.toNat ≠ 0x5c)
    (by decide) h

theorem denoted_append_ne {c : Char} (h : isKept c = true) (values values' : List UInt8) :
    denoted c ++ values ≠ bytes [c] ++ values' := by
  obtain ⟨hbytes, hne⟩ := bytes_of_control (control_of_kept h)
  obtain ⟨ps, hps, _⟩ := encodeChar_of_kept h
  have hdenoted : denoted c = 0x5c :: bytes ps := by
    unfold denoted
    rw [if_pos h, hps]
    rfl
  intro heq
  rw [hdenoted, hbytes] at heq
  exact hne (List.cons.inj heq).1.symm

theorem flatMap_denoted_eq_iff {cs : List Char} :
    cs.flatMap denoted = bytes cs ↔ ∀ c ∈ cs, isKept c = false := by
  induction cs with
  | nil => simp [bytes]
  | cons c cs ih =>
    have hbytes : bytes (c :: cs) = bytes [c] ++ bytes cs := bytes_append [c] cs
    rw [List.flatMap_cons, hbytes, List.forall_mem_cons]
    cases hkept : isKept c with
    | true => simp [denoted_append_ne hkept]
    | false =>
      have hdenoted : denoted c = bytes [c] := by
        unfold denoted
        rw [hkept, if_neg Bool.false_ne_true]
      rw [hdenoted, List.append_cancel_left_eq, ih]
      simp

theorem read_encode_eq_some_iff {s : String} {rest rest' : List Char} :
    read (Quoted.encode s ++ rest) = some (bytes s.toList, rest') ↔
      Plain s.toList ∧ rest' = rest := by
  have hread : read (Quoted.encode s ++ rest) =
      scan 0 (Quoted.encodeChars s.toList ++ '"' :: rest) := by
    simp [Quoted.encode, read]
  rw [hread, scan_encodeChars_eq_some_iff]
  constructor
  . intro h
    exact ⟨⟨h.1, flatMap_denoted_eq_iff.mp h.2.1.symm⟩, h.2.2⟩
  . intro h
    exact ⟨h.1.steady, (flatMap_denoted_eq_iff.mpr h.1.known).symm, h.2⟩

end SchemaMigration.Text.Interpolated
