import SchemaMigration.Json.Record
import SchemaMigration.NameMap.Document
import SchemaMigration.Registry.Basic

/-!
This module contains the written form of registries: an object with the models as keys. The primary
key of an entity may be left out. Of two entities of one model the later one counts.
-/

namespace SchemaMigration

open Json

namespace Entity

def toJson (e : Entity) : Json :=
  .object [("primaryKey", .string e.primaryKey), ("table", .string e.table)]

def record : Record Entity where
  expected := "struct EntityInfo"
  blank := { table := "" }
  fields := [
    .defaulted "primaryKey" Reader.string fun s e => { e with primaryKey := s },
    .mandatory "table" Reader.string fun s e => { e with table := s }]

end Entity

namespace Registry

def toJson (r : Registry) : Json := r.entities.toJson Entity.toJson

def member (depth : Nat) (r : Registry) (model : String) (cs : List Char) :
    Except Json.Error (Registry × List Char) := do
  let (entity, rest) ← Entity.record.read depth (← Reader.colon cs)
  .ok (r.register model entity, rest)

def reader : Reader Registry := fun depth cs =>
  match Lexeme.skipSpace cs with
  | '\x7b' :: rest =>
    Reader.inside depth fun depth => Reader.objectBody (member depth) .empty rest
  | rest => Reader.mismatch "a map" rest

end Registry

end SchemaMigration
