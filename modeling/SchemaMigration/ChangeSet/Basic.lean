import SchemaMigration.Json.Basic
import SchemaMigration.NameMap.Basic

/-!
This module contains change sets: the tables that one direction of a migration creates, updates and
deletes, and the columns of each table that are created, updated and deleted. A bucket that is
absent differs from one that is empty.
-/

namespace SchemaMigration

inductive Bucket where
  | created
  | updated
  | deleted
  deriving DecidableEq

def Bucket.name : Bucket → String
  | .created => "created"
  | .updated => "updated"
  | .deleted => "deleted"

structure Relation where
  foreignKey : String
  model : String
  deriving DecidableEq

/--
The definition of a column. The values of modifiers are kept as the document has them. For
`useCurrent` only its presence matters.
-/
structure ColumnDef where
  type : String
  typeArgs : List Json := []
  index : Option Json := none
  unique : Option Json := none
  literalDefault : Option Json := none
  rawDefault : Option String := none
  primary : Option Json := none
  unsigned : Option Json := none
  nullable : Option Json := none
  useCurrent : Option Json := none
  belongsTo : Option Relation := none
  deriving BEq

structure ColumnDrop where
  belongsTo : Option Relation := none
  deriving DecidableEq

structure TableChange where
  connection : String
  created : Option (NameMap ColumnDef) := none
  updated : Option (NameMap ColumnDef) := none
  deleted : Option (NameMap ColumnDrop) := none
  deriving BEq

structure ChangeSet where
  created : Option (NameMap TableChange) := none
  updated : Option (NameMap TableChange) := none
  deleted : Option (NameMap TableChange) := none
  deriving BEq

def bucketEntries {α : Type} (bucket : Option (NameMap α)) : List (String × α) :=
  match bucket with
  | some map => map.entries
  | none => []

namespace ColumnDef

/--
The name a column goes by in the database: the foreign key of its relation if it has one, and the
declared name otherwise.
-/
def databaseName (c : ColumnDef) (declared : String) : String :=
  match c.belongsTo with
  | some relation => relation.foreignKey
  | none => declared

def hasAmbiguousDefault (c : ColumnDef) : Bool :=
  c.literalDefault.isSome && c.rawDefault.isSome

end ColumnDef

namespace TableChange

def hasColumns (t : TableChange) : Bool :=
  t.created.isSome || t.updated.isSome || t.deleted.isSome

def columnDefs (t : TableChange) : List (String × ColumnDef) :=
  bucketEntries t.created ++ bucketEntries t.updated

end TableChange

namespace ChangeSet

def empty : ChangeSet := {}

def bucket (cs : ChangeSet) : Bucket → Option (NameMap TableChange)
  | .created => cs.created
  | .updated => cs.updated
  | .deleted => cs.deleted

def tables (cs : ChangeSet) (b : Bucket) : List (String × TableChange) :=
  bucketEntries (cs.bucket b)

def buckets (cs : ChangeSet) : List (Bucket × NameMap TableChange) :=
  [Bucket.created, .updated, .deleted].filterMap fun b => (cs.bucket b).map fun map => (b, map)

def isEmpty (cs : ChangeSet) : Bool :=
  cs.buckets.all fun (_, map) => map.isEmpty

def keptTables (cs : ChangeSet) : List (String × TableChange) :=
  cs.tables .created ++ cs.tables .updated

theorem isEmpty_iff {cs : ChangeSet} :
    cs.isEmpty = true ↔
      cs.tables .created = [] ∧ cs.tables .updated = [] ∧ cs.tables .deleted = [] := by
  rcases cs with ⟨_ | ⟨_ | _⟩, _ | ⟨_ | _⟩, _ | ⟨_ | _⟩⟩ <;>
    simp [isEmpty, buckets, bucket, tables, bucketEntries, NameMap.isEmpty]

end ChangeSet

end SchemaMigration
