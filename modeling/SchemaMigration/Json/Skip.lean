import SchemaMigration.Json.Lexeme

/-!
This module contains the skipping of values nobody asks for. Only their syntax is checked, and they
may be nested to any depth: the brackets that are open are kept in a list.
-/

namespace SchemaMigration.Json.Skip

open Lexeme

inductive Bracket where
  | list
  | object
  deriving DecidableEq

inductive Place where
  | value
  | opened
  | closed
  deriving DecidableEq

def Bracket.unfinished : Bracket → Error
  | .list => .unfinished .list
  | .object => .unfinished .object

def Bracket.expectedMore : Bracket → Error
  | .list => .expectedCommaOrBracket
  | .object => .expectedCommaOrBrace

def Bracket.closing : Bracket → Char
  | .list => ']'
  | .object => '\x7d'

def key (cs : List Char) : Except Error (List Char) :=
  match skipSpace cs with
  | [] => .error (.unfinished .object)
  | '"' :: rest => do
    let rest ← skipString rest
    match skipSpace rest with
    | [] => .error (.unfinished .object)
    | ':' :: rest => .ok rest
    | _ => .error .expectedColon
  | _ => .error .keyMustBeString

def Bracket.next (b : Bracket) (cs : List Char) : Except Error (List Char) :=
  match b with
  | .list => .ok cs
  | .object => key cs

def head (cs : List Char) : Except Error (Option Bracket × List Char) :=
  match skipSpace cs with
  | [] => .error (.unfinished .value)
  | 'n' :: rest => do .ok (none, ← word ['u', 'l', 'l'] rest)
  | 't' :: rest => do .ok (none, ← word ['r', 'u', 'e'] rest)
  | 'f' :: rest => do .ok (none, ← word ['a', 'l', 's', 'e'] rest)
  | '"' :: rest => do .ok (none, ← skipString rest)
  | '[' :: rest => .ok (some .list, rest)
  | '\x7b' :: rest => .ok (some .object, rest)
  | c :: rest =>
    if c = '-' ∨ c.isDigit then do
      .ok (none, ← skipNumber (c :: rest))
    else
      .error .expectedValue

/--
Go over the rest of a value, given the brackets that are open, the innermost first. Each round goes
over at least one character or ends a value, so twice as many rounds as characters suffice.
-/
def loop : Nat → Place → List Bracket → List Char → Except Error (List Char)
  | 0, _, _, _ => .error (.unfinished .value)
  | rounds + 1, .value, outer, cs => do
    match ← head cs with
    | (none, cs) => loop rounds .closed outer cs
    | (some b, cs) => loop rounds .opened (b :: outer) cs
  | _ + 1, _, [], cs => .ok cs
  | rounds + 1, place, b :: outer, cs =>
    match skipSpace cs with
    | [] => .error b.unfinished
    | c :: cs =>
      if c = b.closing then
        loop rounds .closed outer cs
      else if place = .opened then do
        loop rounds .value (b :: outer) (← b.next (c :: cs))
      else if c = ',' then do
        loop rounds .value (b :: outer) (← b.next cs)
      else
        .error b.expectedMore

def value (cs : List Char) : Except Error (List Char) :=
  loop (2 * cs.length + 2) .value [] cs

end SchemaMigration.Json.Skip
