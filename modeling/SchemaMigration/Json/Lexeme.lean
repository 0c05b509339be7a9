import SchemaMigration.Json.Error

/-!
This module contains the reading of the smallest parts of a document: white space, words, the
characters of strings and the literals of numbers. Every reader takes the rest of the document and
answers with what is left of it.
-/

namespace SchemaMigration.Json.Lexeme

def isSpace (c : Char) : Bool := c == ' ' || c == '\n' || c == '\r' || c == '\t'

def skipSpace (cs : List Char) : List Char := cs.dropWhile isSpace

def word : List Char → List Char → Except Error (List Char)
  | [], cs => .ok cs
  | _ :: _, [] => .error (.unfinished .value)
  | w :: ws, c :: cs => if w = c then word ws cs else .error .expectedIdent

def hexDigit? (c : Char) : Option Nat :=
  let n := c.toNat
  if '0'.toNat ≤ n ∧ n ≤ '9'.toNat then
    some (n - '0'.toNat)
  else if 'a'.toNat ≤ n ∧ n ≤ 'f'.toNat then
    some (n - 'a'.toNat + 10)
  else if 'A'.toNat ≤ n ∧ n ≤ 'F'.toNat then
    some (n - 'A'.toNat + 10)
  else
    none

def codeUnit? (a b c d : Char) : Option Nat := do
  let a ← hexDigit? a
  let b ← hexDigit? b
  let c ← hexDigit? c
  let d ← hexDigit? d
  return ((a * 16 + b) * 16 + c) * 16 + d

/--
Read the code unit that four hexadecimal digits in front stand for. A document with fewer than four
bytes left counts as unfinished, also if these bytes are no digits.
-/
def codeUnit (cs : List Char) : Except Error Nat :=
  match cs with
  | a :: b :: c :: d :: _ =>
    match codeUnit? a b c d with
    | some unit => .ok unit
    | none => .error .invalidEscape
  | short =>
    if short.foldr (fun c size => c.utf8Size + size) 0 < 4 then
      .error (.unfinished .string)
    else
      .error .invalidEscape

def isHighSurrogate (unit : Nat) : Bool := 0xD800 ≤ unit && unit ≤ 0xDBFF

def isLowSurrogate (unit : Nat) : Bool := 0xDC00 ≤ unit && unit ≤ 0xDFFF

def ofSurrogates (high low : Nat) : Char :=
  Char.ofNat ((high - 0xD800) * 0x400 + (low - 0xDC00) + 0x10000)

def lowSurrogate (high : Nat) (cs : List Char) : Except Error Char :=
  match cs with
  | [] => .error (.unfinished .string)
  | '\\' :: [] => .error (.unfinished .string)
  | '\\' :: 'u' :: rest => do
    let unit ← codeUnit rest
    if isLowSurrogate unit then .ok (ofSurrogates high unit) else .error .loneSurrogate
  | _ => .error .unexpectedEndOfEscape

def unicodeEscape (cs : List Char) : Except Error (Char × Nat) := do
  let unit ← codeUnit cs
  if isLowSurrogate unit then
    .error .loneSurrogate
  else if isHighSurrogate unit then do
    let c ← lowSurrogate unit (cs.drop 4)
    .ok (c, 10)
  else
    .ok (Char.ofNat unit, 4)

def shortEscape? : Char → Option Char
  | '"' => some '"'
  | '\\' => some '\\'
  | '/' => some '/'
  | 'b' => some '\x08'
  | 'f' => some '\x0c'
  | 'n' => some '\n'
  | 'r' => some '\r'
  | 't' => some '\t'
  | _ => none

def escape (cs : List Char) : Except Error (Char × Nat) :=
  match cs with
  | [] => .error (.unfinished .string)
  | 'u' :: rest => do
    let (c, size) ← unicodeEscape rest
    .ok (c, size + 1)
  | c :: _ =>
    match shortEscape? c with
    | some c => .ok (c, 1)
    | none => .error .invalidEscape

def escapeSize (cs : List Char) : Except Error Nat :=
  match cs with
  | [] => .error (.unfinished .string)
  | 'u' :: rest => do
    let _ ← codeUnit rest
    .ok 5
  | c :: _ => if (shortEscape? c).isSome then .ok 1 else .error .invalidEscape

/--
Read the characters of a string up to its closing quote. The first `skip` characters are left out,
since they belong to an escape that has been read.
-/
def stringChars : Nat → List Char → Except Error (List Char × List Char)
  | _, [] => .error (.unfinished .string)
  | skip + 1, _ :: rest => stringChars skip rest
  | 0, '"' :: rest => .ok ([], rest)
  | 0, '\\' :: rest => do
    let (c, size) ← escape rest
    let (cs, rest) ← stringChars size rest
    .ok (c :: cs, rest)
  | 0, c :: rest =>
    if c.toNat < 0x20 then
      .error .controlCharacter
    else do
      let (cs, rest) ← stringChars 0 rest
      .ok (c :: cs, rest)

def stringBody (cs : List Char) : Except Error (String × List Char) := do
  let (chars, rest) ← stringChars 0 cs
  .ok (String.ofList chars, rest)

def skipStringChars : Nat → List Char → Except Error (List Char)
  | _, [] => .error (.unfinished .string)
  | skip + 1, _ :: rest => skipStringChars skip rest
  | 0, '"' :: rest => .ok rest
  | 0, '\\' :: rest => do
    let size ← escapeSize rest
    skipStringChars size rest
  | 0, c :: rest =>
    if c.toNat < 0x20 then .error .controlCharacter else skipStringChars 0 rest

def skipString (cs : List Char) : Except Error (List Char) := skipStringChars 0 cs

structure Literal where
  negative : Bool
  whole : List Char
  fraction : Option (List Char)
  exponent : Option (Bool × List Char)
  deriving DecidableEq

def someDigits (cs : List Char) : Except Error (List Char × List Char) :=
  match cs with
  | [] => .error (.unfinished .value)
  | c :: _ =>
    if c.isDigit then
      .ok (cs.takeWhile Char.isDigit, cs.dropWhile Char.isDigit)
    else
      .error .invalidNumber

def wholeDigits (cs : List Char) : Except Error (List Char × List Char) := do
  let (digits, rest) ← someDigits cs
  match digits with
  | '0' :: _ :: _ => .error .invalidNumber
  | _ => .ok (digits, rest)

def fraction (cs : List Char) : Except Error (Option (List Char) × List Char) :=
  match cs with
  | '.' :: rest => do
    let (digits, rest) ← someDigits rest
    .ok (some digits, rest)
  | _ => .ok (none, cs)

def exponentSign (cs : List Char) : Bool × List Char :=
  match cs with
  | '+' :: rest => (false, rest)
  | '-' :: rest => (true, rest)
  | _ => (false, cs)

def exponent (cs : List Char) : Except Error (Option (Bool × List Char) × List Char) :=
  match cs with
  | 'e' :: rest | 'E' :: rest => do
    let (negative, rest) := exponentSign rest
    let (digits, rest) ← someDigits rest
    .ok (some (negative, digits), rest)
  | _ => .ok (none, cs)

def literal (cs : List Char) : Except Error (Literal × List Char) := do
  let (negative, rest) :=
    match cs with
    | '-' :: rest => (true, rest)
    | _ => (false, cs)
  let (whole, rest) ← wholeDigits rest
  let (fraction, rest) ← fraction rest
  let (exponent, rest) ← exponent rest
  .ok (⟨negative, whole, fraction, exponent⟩, rest)

def skipNumber (cs : List Char) : Except Error (List Char) :=
  match literal cs with
  | .ok (_, rest) => .ok rest
  | .error _ => .error .invalidNumber

def ofDigits (digits : List Char) : Nat := Nat.ofDigitChars 10 digits 0

/--
Put digits behind a significand as long as it stays below `2 ^ 64`. The other digits are left.
-/
def putDigits (significand : Nat) : List Char → Nat × List Char
  | [] => (significand, [])
  | c :: cs =>
    let next := significand * 10 + ofDigits [c]
    if next < 0x10000000000000000 then putDigits next cs else (significand, c :: cs)

def Literal.float? (l : Literal) : Option Double :=
  let fraction := l.fraction.getD []
  let exponent : Int :=
    match l.exponent with
    | none => 0
    | some (true, digits) => -ofDigits digits
    | some (false, digits) => ofDigits digits
  let (significand, wholeLeft) := putDigits 0 l.whole
  -- Digits of the fraction may fit again where one before the point did not.
  let (significand, fractionLeft) := putDigits significand fraction
  Double.ofScaled? l.negative significand
    (exponent + wholeLeft.length - (fraction.length - fractionLeft.length : Nat))

/--
The integer of a literal without fraction and exponent, if it is at most `2 ^ 64 - 1` and at least
`-2 ^ 63`. A zero with a sign is no integer.
-/
def Literal.integer? (l : Literal) : Option Int :=
  let n := ofDigits l.whole
  if l.fraction.isSome ∨ l.exponent.isSome then
    none
  else if l.negative then
    if 0 < n ∧ n ≤ 0x8000000000000000 then some (-n) else none
  else
    if n < 0x10000000000000000 then some n else none

def Literal.number? (l : Literal) : Option Number :=
  match l.integer? with
  | some i => some (.integer i)
  | none => l.float?.map .float

def number (cs : List Char) : Except Error (Number × List Char) := do
  let (l, rest) ← literal cs
  match l.number? with
  | some n => .ok (n, rest)
  | none => .error .numberOutOfRange

end SchemaMigration.Json.Lexeme
