import SchemaMigration.ChangeSet.Basic

/-!
This module contains the steps by which change sets are built up. Each step fills in one part: a
modifier of a column, a column of a table, or a table of a change set. A part that is there already
is replaced.
-/

namespace SchemaMigration

inductive ColumnEdit where
  | typeArg (value : Json)
  | index (value : Json)
  | unique (value : Json)
  | literalDefault (value : Json)
  | rawDefault (expression : String)
  | primary (value : Json)
  | unsigned (value : Json)
  | nullable (value : Json)
  | useCurrent
  | belongsTo (relation : Relation)

inductive TableEdit where
  | created (name : String) (column : ColumnDef)
  | updated (name : String) (column : ColumnDef)
  | deleted (name : String) (column : ColumnDrop)

structure ChangeSetEdit where
  bucket : Bucket
  name : String
  table : TableChange

def putEntry {α : Type} (bucket : Option (NameMap α)) (name : String) (value : α) :
    Option (NameMap α) :=
  some ((bucket.getD .empty).insert name value)

def ColumnDef.edit (c : ColumnDef) : ColumnEdit → ColumnDef
  | .typeArg value => { c with typeArgs := c.typeArgs ++ [value] }
  | .index value => { c with index := some value }
  | .unique value => { c with unique := some value }
  | .literalDefault value => { c with literalDefault := some value }
  | .rawDefault expression => { c with rawDefault := some expression }
  | .primary value => { c with primary := some value }
  | .unsigned value => { c with unsigned := some value }
  | .nullable value => { c with nullable := some value }
  | .useCurrent => { c with useCurrent := some (.bool true) }
  | .belongsTo relation => { c with belongsTo := some relation }

def TableChange.edit (t : TableChange) : TableEdit → TableChange
  | .created name column => { t with created := putEntry t.created name column }
  | .updated name column => { t with updated := putEntry t.updated name column }
  | .deleted name column => { t with deleted := putEntry t.deleted name column }

def ChangeSet.edit (cs : ChangeSet) (e : ChangeSetEdit) : ChangeSet :=
  match e.bucket with
  | .created => { cs with created := putEntry cs.created e.name e.table }
  | .updated => { cs with updated := putEntry cs.updated e.name e.table }
  | .deleted => { cs with deleted := putEntry cs.deleted e.name e.table }

def ColumnDef.ofEdits (type : String) (edits : List ColumnEdit) : ColumnDef :=
  edits.foldl ColumnDef.edit { type }

def TableChange.ofEdits (connection : String) (edits : List TableEdit) : TableChange :=
  edits.foldl TableChange.edit { connection }

def ChangeSet.ofEdits (edits : List ChangeSetEdit) : ChangeSet :=
  edits.foldl ChangeSet.edit .empty

end SchemaMigration
