import SchemaMigration.Command.Event
import SchemaMigration.Compile.Basic
import SchemaMigration.Script.Basic

/-!
This module contains the events of compiling change sets. They come in the order in which the work
is done, and end where an error ends it: no table is reported before the change set is found to be
in order, and no table after the one whose relations cannot be resolved.
-/

namespace SchemaMigration.Command

def ambiguityEvent (table column : String) : Event where
  level := .warn
  message := "column sets both 'default' and 'rawDefault', emitting both"
  details := [.text "table" table, .text "column" column]

def tableEvent (message : String) (table : String × TableChange) : Event where
  level := .debug
  message := message
  details := [.text "table" table.1, .plain "connection" table.2.connection]

def relationsEvent (table : String × TableChange) : Event where
  level := .debug
  message := "add foreign keys"
  details := [.text "table" table.1, .count "keys" table.2.relations.length]

def passEvent (plan : Plan) (kind : PassKind) : Event where
  level := .debug
  message := "compiled pass"
  details := [
    .plain "pass" kind.name,
    .count "groups" (match plan.pass? kind with
      | some pass => pass.groups.length
      | none => 0)]

def isResolved (registry : Registry) (table : String × TableChange) : Bool :=
  (table.2.relationshipGroup registry.lookup table.1).isOk

def passEvents (registry : Registry) (options : Options) (cs : ChangeSet) : List Event :=
  cs.ambiguousColumns.map (fun (table, column) => ambiguityEvent table column)
    ++ (cs.tables .created).map (tableEvent "create table")
    ++ (cs.tables .updated).map (tableEvent "alter table")
    ++ (cs.relatedTables.takeWhile (isResolved registry)).map relationsEvent
    ++ match cs.compile registry options with
      | .error _ => []
      | .ok plan =>
        (cs.tables .deleted).map (tableEvent "drop table") ++ PassKind.all.map (passEvent plan)

def compileEvents (registry : Registry) (options : Options) (cs : ChangeSet) : List Event :=
  match cs.validate, cs.checkDefaults options with
  | .ok (), .ok () => passEvents registry options cs
  | _, _ => []

def directionEvent (message name : String) : Event where
  level := .debug
  message := message
  details := [.text "script" name]

def assembleEvents (registry : Registry) (options : Options) (name : String) (up down : ChangeSet) :
    List Event :=
  match Script.checkName name with
  | .error _ => []
  | .ok () =>
    directionEvent "compiling apply direction" name :: compileEvents registry options up
      ++ match up.compile registry options with
        | .error _ => []
        | .ok _ =>
          directionEvent "compiling reverse direction" name :: compileEvents registry options down

end SchemaMigration.Command
