import SchemaMigration.Plan.Basic
import SchemaMigration.Registry.Basic

/-!
This module contains the foreign keys for the relations of columns. They come after all tables, so
that the tables they refer to are there.
-/

namespace SchemaMigration

def Relation.resolve (lookup : Lookup) (relation : Relation) : Except Error ForeignKey := do
  let entity ← lookup relation.model
  .ok ⟨relation.foreignKey, entity.primaryKey, entity.table⟩

def Registry.resolve (r : Registry) (relation : Relation) : Except Error ForeignKey :=
  relation.resolve r.lookup

def TableChange.relations (t : TableChange) : List Relation :=
  t.columnDefs.filterMap fun (_, c) => c.belongsTo

def TableChange.relationshipGroup (lookup : Lookup) (name : String) (t : TableChange) :
    Except Error Group := do
  let keys ← t.relations.mapM (Relation.resolve lookup)
  .ok (.alterTable ⟨t.connection, name, keys.map .foreign⟩)

namespace ChangeSet

def keysComment : String := "Adding foreign keys"

def relatedTables (cs : ChangeSet) : List (String × TableChange) :=
  cs.keptTables.filter fun (_, t) => !t.relations.isEmpty

def relationshipGroups (lookup : Lookup) (cs : ChangeSet) : Except Error (List Group) := do
  let groups ← cs.relatedTables.mapM fun (name, t) => t.relationshipGroup lookup name
  .ok (if groups.isEmpty then [] else .comment keysComment :: groups)

end ChangeSet

end SchemaMigration
