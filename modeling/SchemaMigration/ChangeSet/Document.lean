import SchemaMigration.ChangeSet.Basic
import SchemaMigration.Json.Record
import SchemaMigration.NameMap.Document

/-!
This module contains the written form of change sets and their parts. `toJson` writes a part, and
`record` says how it is read. What is absent is left out when it is written, and may be left out or
be `null` when it is read.
-/

namespace SchemaMigration

open Json

def optionalMember {α : Type} (key : String) (value : α → Json) (part : Option α) :
    List (String × Json) :=
  match part with
  | some a => [(key, value a)]
  | none => []

namespace Relation

def toJson (r : Relation) : Json :=
  .object [("foreignKey", .string r.foreignKey), ("model", .string r.model)]

def record : Record Relation where
  expected := "struct BelongsTo"
  blank := ⟨"", ""⟩
  fields := [
    .mandatory "foreignKey" Reader.string fun s r => { r with foreignKey := s },
    .mandatory "model" Reader.string fun s r => { r with model := s }]

end Relation

namespace ColumnDef

def toJson (c : ColumnDef) : Json :=
  .object (
    [("type", .string c.type)]
    ++ (if c.typeArgs.isEmpty then [] else [("typeArgs", .array c.typeArgs)])
    ++ optionalMember "index" id c.index
    ++ optionalMember "unique" id c.unique
    ++ optionalMember "default" id c.literalDefault
    ++ optionalMember "rawDefault" .string c.rawDefault
    ++ optionalMember "primary" id c.primary
    ++ optionalMember "unsigned" id c.unsigned
    ++ optionalMember "nullable" id c.nullable
    ++ optionalMember "useCurrent" id c.useCurrent
    ++ optionalMember "belongsTo" Relation.toJson c.belongsTo)

def record : Record ColumnDef where
  expected := "struct ColumnSpec"
  blank := { type := "" }
  fields := [
    .mandatory "type" Reader.string fun s c => { c with type := s },
    .defaulted "typeArgs" (Reader.optional (Reader.list Reader.value)) fun args c =>
      { c with typeArgs := args.getD [] },
    .defaulted "index" (Reader.optional Reader.value) fun v c => { c with index := v },
    .defaulted "unique" (Reader.optional Reader.value) fun v c => { c with unique := v },
    .defaulted "default" (Reader.optional Reader.value) fun v c => { c with literalDefault := v },
    .defaulted "rawDefault" (Reader.optional Reader.string) fun s c => { c with rawDefault := s },
    .defaulted "primary" (Reader.optional Reader.value) fun v c => { c with primary := v },
    .defaulted "unsigned" (Reader.optional Reader.value) fun v c => { c with unsigned := v },
    .defaulted "nullable" (Reader.optional Reader.value) fun v c => { c with nullable := v },
    .defaulted "useCurrent" (Reader.optional Reader.value) fun v c => { c with useCurrent := v },
    .defaulted "belongsTo" (Reader.optional Relation.record.read) fun r c =>
      { c with belongsTo := r }]

end ColumnDef

namespace ColumnDrop

def toJson (c : ColumnDrop) : Json :=
  .object (optionalMember "belongsTo" Relation.toJson c.belongsTo)

def record : Record ColumnDrop where
  expected := "struct ColumnRef"
  blank := {}
  fields := [
    .defaulted "belongsTo" (Reader.optional Relation.record.read) fun r c =>
      { c with belongsTo := r }]

end ColumnDrop

namespace TableChange

def toJson (t : TableChange) : Json :=
  .object (
    [("connection", .string t.connection)]
    ++ optionalMember "created" (NameMap.toJson ColumnDef.toJson) t.created
    ++ optionalMember "updated" (NameMap.toJson ColumnDef.toJson) t.updated
    ++ optionalMember "deleted" (NameMap.toJson ColumnDrop.toJson) t.deleted)

def record : Record TableChange where
  expected := "struct TableDiff"
  blank := { connection := "" }
  fields := [
    .mandatory "connection" Reader.string fun s t => { t with connection := s },
    .defaulted "created" (Reader.optional (NameMap.reader ColumnDef.record.read)) fun m t =>
      { t with created := m },
    .defaulted "updated" (Reader.optional (NameMap.reader ColumnDef.record.read)) fun m t =>
      { t with updated := m },
    .defaulted "deleted" (Reader.optional (NameMap.reader ColumnDrop.record.read)) fun m t =>
      { t with deleted := m }]

end TableChange

namespace ChangeSet

def toJson (cs : ChangeSet) : Json :=
  .object (
    optionalMember "created" (NameMap.toJson TableChange.toJson) cs.created
    ++ optionalMember "updated" (NameMap.toJson TableChange.toJson) cs.updated
    ++ optionalMember "deleted" (NameMap.toJson TableChange.toJson) cs.deleted)

def record : Record ChangeSet where
  expected := "struct ChangeSet"
  blank := {}
  fields := [
    .defaulted "created" (Reader.optional (NameMap.reader TableChange.record.read)) fun m cs =>
      { cs with created := m },
    .defaulted "updated" (Reader.optional (NameMap.reader TableChange.record.read)) fun m cs =>
      { cs with updated := m },
    .defaulted "deleted" (Reader.optional (NameMap.reader TableChange.record.read)) fun m cs =>
      { cs with deleted := m }]

def text (cs : ChangeSet) : String := cs.toJson.compact

end ChangeSet

end SchemaMigration
