import SchemaMigration.ChangeSet.Validate
import SchemaMigration.Compile.Column
import SchemaMigration.Compile.Relationship

/-!
This module contains the compilation of a change set to a plan. Tables are created first, then
updated; the foreign keys follow when every table is there, and tables are deleted last. Either the
whole change set is compiled or there is an error.
-/

namespace SchemaMigration

structure Options where
  allowAmbiguousDefaults : Bool := false
  deriving DecidableEq

namespace ChangeSet

def ambiguousColumns (cs : ChangeSet) : List (String × String) :=
  cs.keptTables.flatMap fun (table, t) =>
    (t.columnDefs.filter fun (_, c) => c.hasAmbiguousDefault).map fun (column, _) =>
      (table, column)

def checkDefaults (options : Options) (cs : ChangeSet) : Except Error Unit :=
  if options.allowAmbiguousDefaults then
    .ok ()
  else
    match cs.ambiguousColumns with
    | [] => .ok ()
    | (table, column) :: _ => .error (.ambiguousDefault table column)

def creationGroups (cs : ChangeSet) : List Group :=
  (cs.tables .created).map fun (name, t) => .createTable ⟨t.connection, name, t.statements⟩

def updateGroups (cs : ChangeSet) : List Group :=
  (cs.tables .updated).map fun (name, t) => .alterTable ⟨t.connection, name, t.statements⟩

def deletionCalls (name connection : String) : List ConnectionCall :=
  [.disableForeignKeys connection, .dropTable connection name, .enableForeignKeys connection]

def deletionGroups (cs : ChangeSet) : List Group :=
  (cs.tables .deleted).map fun (name, t) => .calls (deletionCalls name t.connection)

def passes (cs : ChangeSet) (relationships : List Group) : List Pass := [
  ⟨.createdTables, cs.creationGroups⟩,
  ⟨.updatedTables, cs.updateGroups⟩,
  ⟨.relationships, relationships⟩,
  ⟨.deletedTables, cs.deletionGroups⟩]

def compileWith (lookup : Lookup) (options : Options) (cs : ChangeSet) : Except Error Plan := do
  cs.validate
  cs.checkDefaults options
  let relationships ← cs.relationshipGroups lookup
  .ok ⟨(cs.passes relationships).filter fun pass => !pass.groups.isEmpty⟩

def compile (registry : Registry) (options : Options) (cs : ChangeSet) : Except Error Plan :=
  cs.compileWith registry.lookup options

end ChangeSet

end SchemaMigration
