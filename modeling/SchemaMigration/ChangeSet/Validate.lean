import SchemaMigration.Error
import SchemaMigration.Text.Blank

/-!
This module contains the rules for change sets that their documents cannot express: no table is in
two buckets, every connection, type and relation is filled in, and a table only has the buckets of
columns that make sense for it. The first rule broken is the error, where tables come by bucket and
then in their order, and the columns of a table likewise.
-/

namespace SchemaMigration

def Relation.check (table column : String) (relation : Option Relation) : Except Error Unit :=
  match relation with
  | some r =>
    if Text.isBlank r.foreignKey || Text.isBlank r.model then
      .error (.malformed (.incompleteRelation table column))
    else
      .ok ()
  | none => .ok ()

namespace TableChange

def checkBuckets (name : String) (bucket : Bucket) (t : TableChange) : Except Error Unit :=
  match bucket with
  | .created =>
    if t.updated.isSome || t.deleted.isSome then
      .error (.malformed (.columnsOfCreatedTable name))
    else
      .ok ()
  | .updated => .ok ()
  | .deleted =>
    if t.hasColumns then .error (.malformed (.columnsOfDeletedTable name)) else .ok ()

def checkDefined (table : String) : List (String × ColumnDef) → Except Error Unit
  | [] => .ok ()
  | (column, c) :: columns => do
    if Text.isBlank c.type then
      .error (.malformed (.blankType table column))
    Relation.check table column c.belongsTo
    checkDefined table columns

def checkDeleted (table : String) : List (String × ColumnDrop) → Except Error Unit
  | [] => .ok ()
  | (column, c) :: columns => do
    Relation.check table column c.belongsTo
    checkDeleted table columns

def check (name : String) (bucket : Bucket) (t : TableChange) : Except Error Unit := do
  if Text.isBlank t.connection then
    .error (.malformed (.blankConnection name bucket))
  t.checkBuckets name bucket
  checkDefined name t.columnDefs
  checkDeleted name (bucketEntries t.deleted)

end TableChange

namespace ChangeSet

def allTables (cs : ChangeSet) : List (Bucket × String × TableChange) :=
  cs.buckets.flatMap fun (bucket, map) => map.entries.map fun (name, table) => (bucket, name, table)

def checkTables : List (String × Bucket) → List (Bucket × String × TableChange) → Except Error Unit
  | _, [] => .ok ()
  | seen, (bucket, name, table) :: tables =>
    match seen.lookup name with
    | some first => .error (.conflictingTable name first bucket)
    | none => do
      table.check name bucket
      checkTables ((name, bucket) :: seen) tables

def validate (cs : ChangeSet) : Except Error Unit :=
  checkTables [] cs.allTables

end ChangeSet

end SchemaMigration
