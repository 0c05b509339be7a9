import SchemaMigration.Json.Record

/-!
This module contains the reading of values that come in several variants. A variant with content is
written as an object whose only member has the variant's name as its key and the content as its
value. A variant without content is written as its name alone.
-/

namespace SchemaMigration.Json

inductive Content (α : Type) where
  | none (value : α)
  | value (read : Reader α)
  | fields (read : Reader α)

structure Variant (α : Type) where
  name : String
  content : Content α

namespace Content

def ofValue (read : Reader β) (make : β → α) : Content α := .value (Reader.map make read)

def ofRecord (r : Record β) (make : β → α) : Content α := .fields (Reader.map make r.read)

def read (c : Content α) : Reader α := fun depth cs =>
  match c with
  | .none a => do
    let (_, rest) ← Reader.unit depth cs
    .ok (a, rest)
  | .value read => read depth cs
  | .fields read => read depth cs

def ofName (c : Content α) : Except Error α :=
  match c with
  | .none a => .ok a
  | .value _ => .error (.invalidType .unitVariant "newtype variant")
  | .fields _ => .error (.invalidType .unitVariant "struct variant")

end Content

namespace Variant

def find (variants : List (Variant α)) (name : String) : Except Error (Content α) :=
  match variants.find? (·.name == name) with
  | some v => .ok v.content
  | none => .error (.unknownVariant name (variants.map (·.name)))

def key (cs : List Char) : Except Error (String × List Char) :=
  match Lexeme.skipSpace cs with
  | [] => .error (.unfinished .object)
  | '"' :: rest => Lexeme.stringBody rest
  | '\x7d' :: _ => .error .expectedValue
  | _ => .error .keyMustBeString

def ofObject (variants : List (Variant α)) (depth : Nat) (cs : List Char) :
    Except Error (α × List Char) := do
  let (name, rest) ← key cs
  let c ← find variants name
  let (a, rest) ← c.read depth (← Reader.colon rest)
  match Lexeme.skipSpace rest with
  | [] => .error (.unfinished .object)
  | '\x7d' :: rest => .ok (a, rest)
  | _ => .error .expectedValue

def read (variants : List (Variant α)) : Reader α := fun depth cs =>
  match Lexeme.skipSpace cs with
  | [] => .error (.unfinished .value)
  | '\x7b' :: rest => Reader.inside depth fun depth => ofObject variants depth rest
  | '"' :: rest => do
    let (name, rest) ← Lexeme.stringBody rest
    let c ← find variants name
    let a ← c.ofName
    .ok (a, rest)
  | _ => .error .expectedValue

end Variant

end SchemaMigration.Json
