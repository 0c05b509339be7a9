import SchemaMigration.Json.Reader

/-!
This module contains the reading of records: values with a fixed list of fields. A record is written
as an object, with the fields in any order and among members that are not its own, or as an array
with the fields in their own order. Either way the fields found are put one by one into a blank
record, and a field that has to be there but is not is an error.
-/

namespace SchemaMigration.Json

structure Field (α : Type) where
  key : String
  required : Bool
  read : Reader (α → α)

structure Record (α : Type) where
  expected : String
  blank : α
  fields : List (Field α)

namespace Field

def mandatory (key : String) (read : Reader β) (set : β → α → α) : Field α :=
  ⟨key, true, Reader.map set read⟩

def defaulted (key : String) (read : Reader β) (set : β → α → α) : Field α :=
  ⟨key, false, Reader.map set read⟩

end Field

namespace Record

structure Progress (α : Type) where
  seen : List String
  value : α

/--
Read what follows a key of a record written as an object. Values of unknown keys are skipped. A
second value for a field is an error as soon as its key is read.
-/
def member (r : Record α) (depth : Nat) (progress : Progress α) (key : String) (cs : List Char) :
    Except Error (Progress α × List Char) :=
  match r.fields.find? (·.key == key) with
  | none => do
    let rest ← Skip.value (← Reader.colon cs)
    .ok (progress, rest)
  | some field =>
    if progress.seen.contains key then
      .error (.duplicateField key)
    else do
      let (set, rest) ← field.read depth (← Reader.colon cs)
      .ok (⟨key :: progress.seen, set progress.value⟩, rest)

def missing? (r : Record α) (seen : List String) : Option String :=
  (r.fields.find? fun field => field.required && !seen.contains field.key).map (·.key)

def ofObject (r : Record α) (depth : Nat) (cs : List Char) : Except Error (α × List Char) := do
  let (progress, rest) ← Reader.objectBody (r.member depth) ⟨[], r.blank⟩ cs
  match r.missing? progress.seen with
  | some key => .error (.missingField key)
  | none => .ok (progress.value, rest)

def closing (cs : List Char) : Except Error (List Char) :=
  match Lexeme.skipSpace cs with
  | [] => .error (.unfinished .list)
  | ']' :: rest => .ok rest
  | ',' :: rest =>
    match Lexeme.skipSpace rest with
    | ']' :: _ => .error .trailingComma
    | _ => .error .trailingCharacters
  | _ => .error .trailingCharacters

/--
Read the given fields of a record written as an array, of which `index` fields have been read. If
the array ends early, the remaining fields must all be ones that may be left out.
-/
def positional (r : Record α) (depth : Nat) :
    List (Field α) → Nat → α → List Char → Except Error (α × List Char)
  | [], _, value, cs => do
    let rest ← closing cs
    .ok (value, rest)
  | field :: fields, index, value, cs => do
    match ← Reader.nextItem (index == 0) cs with
    | .item rest =>
      let (set, rest) ← field.read depth rest
      positional r depth fields (index + 1) (set value) rest
    | .closed rest =>
      match (field :: fields).findIdx? (·.required) with
      | some i => .error (.invalidLength (index + i) r.expected r.fields.length)
      | none => .ok (value, rest)

def read (r : Record α) : Reader α := fun depth cs =>
  match Lexeme.skipSpace cs with
  | '\x7b' :: rest => Reader.inside depth fun depth => r.ofObject depth rest
  | '[' :: rest => Reader.inside depth fun depth => r.positional depth r.fields 0 r.blank rest
  | rest => Reader.mismatch r.expected rest

end Record

end SchemaMigration.Json
