import SchemaMigration.Json.Reader
import SchemaMigration.NameMap.Basic

/-!
This module contains the written form of maps from names: an object with the entries as members, in
their order. Two members of one name are not accepted.
-/

namespace SchemaMigration.NameMap

open Json

variable {α : Type}

def toJson (value : α → Json) (map : NameMap α) : Json :=
  .object (map.entries.map fun (name, a) => (name, value a))

/--
Read the value of a member, and add it to the entries before it. A name that is there already is an
error, which comes after the faults of the value.
-/
def member (value : Reader α) (depth : Nat) (entries : List (String × α)) (name : String)
    (cs : List Char) : Except Json.Error (List (String × α) × List Char) := do
  let (a, rest) ← value depth (← Reader.colon cs)
  if entries.any (·.1 == name) then
    .error (.duplicateKey name)
  else
    .ok (entries ++ [(name, a)], rest)

def reader (value : Reader α) : Reader (NameMap α) := fun depth cs =>
  match Lexeme.skipSpace cs with
  | '\x7b' :: rest => Reader.inside depth fun depth => do
    let (entries, rest) ← Reader.objectBody (member value depth) [] rest
    .ok (⟨entries⟩, rest)
  | rest => Reader.mismatch "a map keyed by name" rest

end SchemaMigration.NameMap
