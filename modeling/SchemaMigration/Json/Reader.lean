import SchemaMigration.Json.Skip

/-!
This module contains the reading of documents. A document is read in one pass from left to right,
and the first fault met is the error. A reader is told how many more arrays and objects may be
opened; it takes the rest of the document and answers with a value and with what is left.
-/

namespace SchemaMigration.Json

open Lexeme

/--
How a value of some type is read where at most the given number of arrays and objects may be opened.
-/
abbrev Reader (α : Type) := Nat → List Char → Except Error (α × List Char)

def maxDepth : Nat := 127

namespace Reader

def inside (depth : Nat) (body : Nat → Except Error α) : Except Error α :=
  match depth with
  | 0 => .error .nestedTooDeeply
  | depth + 1 => body depth

/--
The error for a value of another kind than the one expected. A word, a number or a string is read
first, and a fault in it is the error instead.
-/
def mismatch (expected : String) (cs : List Char) : Except Error α :=
  match skipSpace cs with
  | [] => .error (.unfinished .value)
  | 'n' :: rest => do
    let _ ← word ['u', 'l', 'l'] rest
    .error (.invalidType .null expected)
  | 't' :: rest => do
    let _ ← word ['r', 'u', 'e'] rest
    .error (.invalidType (.bool true) expected)
  | 'f' :: rest => do
    let _ ← word ['a', 'l', 's', 'e'] rest
    .error (.invalidType (.bool false) expected)
  | '"' :: rest => do
    let (s, _) ← stringBody rest
    .error (.invalidType (.string s) expected)
  | '[' :: _ => .error (.invalidType .array expected)
  | '\x7b' :: _ => .error (.invalidType .object expected)
  | c :: rest =>
    if c = '-' ∨ c.isDigit then do
      let (n, _) ← Lexeme.number (c :: rest)
      .error (.invalidType (.number n) expected)
    else
      .error .expectedValue

inductive NextItem where
  | item (rest : List Char)
  | closed (rest : List Char)

def nextItem (first : Bool) (cs : List Char) : Except Error NextItem :=
  match skipSpace cs with
  | [] => .error (.unfinished .list)
  | ']' :: rest => .ok (.closed rest)
  | c :: rest =>
    if first then
      .ok (.item (c :: rest))
    else if c = ',' then
      match skipSpace rest with
      | [] => .error (.unfinished .value)
      | ']' :: _ => .error .trailingComma
      | rest => .ok (.item rest)
    else
      .error .expectedCommaOrBracket

def items (item : List Char → Except Error (α × List Char)) :
    Nat → Bool → List Char → Except Error (List α × List Char)
  | 0, _, _ => .error (.unfinished .list)
  | rounds + 1, first, cs => do
    match ← nextItem first cs with
    | .closed rest => .ok ([], rest)
    | .item rest =>
      let (a, rest) ← item rest
      let (as, rest) ← items item rounds false rest
      .ok (a :: as, rest)

def arrayBody (item : List Char → Except Error (α × List Char)) (cs : List Char) :
    Except Error (List α × List Char) :=
  items item (cs.length + 1) true cs

inductive NextMember where
  | key (key : String) (rest : List Char)
  | closed (rest : List Char)

def key (cs : List Char) : Except Error NextMember :=
  match cs with
  | '"' :: rest => do
    let (key, rest) ← stringBody rest
    .ok (.key key rest)
  | _ => .error .keyMustBeString

def nextMember (first : Bool) (cs : List Char) : Except Error NextMember :=
  match skipSpace cs with
  | [] => .error (.unfinished .object)
  | '\x7d' :: rest => .ok (.closed rest)
  | c :: rest =>
    if first then
      key (c :: rest)
    else if c = ',' then
      match skipSpace rest with
      | [] => .error (.unfinished .value)
      | '\x7d' :: _ => .error .trailingComma
      | rest => key rest
    else
      .error .expectedCommaOrBrace

def colon (cs : List Char) : Except Error (List Char) :=
  match skipSpace cs with
  | [] => .error (.unfinished .object)
  | ':' :: rest => .ok rest
  | _ => .error .expectedColon

def members (step : σ → String → List Char → Except Error (σ × List Char)) :
    Nat → Bool → σ → List Char → Except Error (σ × List Char)
  | 0, _, _, _ => .error (.unfinished .object)
  | rounds + 1, first, state, cs => do
    match ← nextMember first cs with
    | .closed rest => .ok (state, rest)
    | .key key rest =>
      let (state, rest) ← step state key rest
      members step rounds false state rest

def objectBody (step : σ → String → List Char → Except Error (σ × List Char)) (start : σ)
    (cs : List Char) : Except Error (σ × List Char) :=
  members step (cs.length + 1) true start cs

def map (f : α → β) (read : Reader α) : Reader β := fun depth cs => do
  let (a, rest) ← read depth cs
  .ok (f a, rest)

def string : Reader String := fun _ cs =>
  match skipSpace cs with
  | '"' :: rest => stringBody rest
  | rest => mismatch "a string" rest

def bool : Reader Bool := fun _ cs =>
  match skipSpace cs with
  | 't' :: rest => do .ok (true, ← word ['r', 'u', 'e'] rest)
  | 'f' :: rest => do .ok (false, ← word ['a', 'l', 's', 'e'] rest)
  | rest => mismatch "a boolean" rest

def unit : Reader Unit := fun _ cs =>
  match skipSpace cs with
  | 'n' :: rest => do .ok ((), ← word ['u', 'l', 'l'] rest)
  | rest => mismatch "unit" rest

def optional (read : Reader α) : Reader (Option α) := fun depth cs =>
  match skipSpace cs with
  | 'n' :: rest => do .ok (none, ← word ['u', 'l', 'l'] rest)
  | rest => do
    let (a, rest) ← read depth rest
    .ok (some a, rest)

def list (read : Reader α) : Reader (List α) := fun depth cs =>
  match skipSpace cs with
  | '[' :: rest => inside depth fun depth => arrayBody (read depth) rest
  | rest => mismatch "a sequence" rest

def value (depth : Nat) (cs : List Char) : Except Error (Json × List Char) :=
  match depth, skipSpace cs with
  | _, [] => .error (.unfinished .value)
  | _, 'n' :: rest => do .ok (.null, ← word ['u', 'l', 'l'] rest)
  | _, 't' :: rest => do .ok (.bool true, ← word ['r', 'u', 'e'] rest)
  | _, 'f' :: rest => do .ok (.bool false, ← word ['a', 'l', 's', 'e'] rest)
  | _, '"' :: rest => do
    let (s, rest) ← stringBody rest
    .ok (.string s, rest)
  | 0, '[' :: _ | 0, '\x7b' :: _ => .error .nestedTooDeeply
  | depth + 1, '[' :: rest => do
    let (items, rest) ← arrayBody (value depth) rest
    .ok (.array items, rest)
  | depth + 1, '\x7b' :: rest => do
    let (members, rest) ← objectBody (fun members key rest => do
      let (v, rest) ← value depth (← colon rest)
      .ok (insertMember key v members, rest)) [] rest
    .ok (.object members, rest)
  | _, c :: rest =>
    if c = '-' ∨ c.isDigit then do
      let (n, rest) ← Lexeme.number (c :: rest)
      .ok (.number n, rest)
    else
      .error .expectedValue
termination_by structural depth

def document (read : Reader α) (text : String) : Except Error α := do
  let (a, rest) ← read maxDepth text.toList
  if (skipSpace rest).isEmpty then .ok a else .error .trailingCharacters

end Reader

end SchemaMigration.Json
