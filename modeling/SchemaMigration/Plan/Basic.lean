import SchemaMigration.Json.Basic

/-!
This module contains plans: what a change set does to the database, statement by statement, in a
form that does not depend on how scripts are written. A plan has passes, a pass has groups, and most
groups have the statements for one table.
-/

namespace SchemaMigration

inductive Argument where
  | none
  | literal (value : Json)
  | raw (expression : String)
  deriving BEq

structure Modifier where
  method : String
  arg : Argument
  deriving BEq

structure ColumnCall where
  type : String
  args : List Json
  modifiers : List Modifier
  change : Bool
  deriving BEq

inductive ConnectionCall where
  | disableForeignKeys (connection : String)
  | enableForeignKeys (connection : String)
  | dropTable (connection table : String)
  deriving DecidableEq

structure ForeignKey where
  column : String
  references : String
  on : String
  deriving DecidableEq

inductive Statement where
  | column (call : ColumnCall)
  | dropColumn (name : String)
  | dropForeign (columns : List String)
  | foreign (key : ForeignKey)
  | connection (call : ConnectionCall)
  deriving BEq

structure Block where
  connection : String
  table : String
  statements : List Statement
  deriving BEq

inductive Group where
  | createTable (block : Block)
  | alterTable (block : Block)
  | calls (list : List ConnectionCall)
  | comment (text : String)
  deriving BEq

inductive PassKind where
  | createdTables
  | updatedTables
  | relationships
  | deletedTables
  deriving DecidableEq

structure Pass where
  kind : PassKind
  groups : List Group
  deriving BEq

structure Plan where
  passes : List Pass
  deriving BEq

namespace ColumnCall

def name? (c : ColumnCall) : Option String :=
  match c.args with
  | .string name :: _ => some name
  | _ => none

def hasModifier (c : ColumnCall) (method : String) : Bool :=
  c.modifiers.any (·.method == method)

end ColumnCall

namespace ConnectionCall

def connection : ConnectionCall → String
  | .disableForeignKeys c => c
  | .enableForeignKeys c => c
  | .dropTable c _ => c

def table? : ConnectionCall → Option String
  | .dropTable _ table => some table
  | _ => none

def description : ConnectionCall → String
  | .disableForeignKeys c => "Disable foreign key constraints on '" ++ c ++ "'"
  | .enableForeignKeys c => "Enable foreign key constraints on '" ++ c ++ "'"
  | .dropTable c table => "Drop table '" ++ table ++ "' on '" ++ c ++ "'"

end ConnectionCall

def Statement.description : Statement → String
  | .column call =>
    (if call.change then "Change" else "Add") ++ " column '" ++ call.name?.getD "?" ++ "'"
  | .dropColumn name => "Drop column '" ++ name ++ "'"
  | .dropForeign columns => "Drop foreign key on '" ++ "', '".intercalate columns ++ "'"
  | .foreign key =>
    "Add foreign key '" ++ key.column ++ "' -> '" ++ key.on ++ "." ++ key.references ++ "'"
  | .connection call => call.description

namespace Group

/--
The table of a group. Among calls it is the first one that is dropped.
-/
def table? : Group → Option String
  | .createTable block => some block.table
  | .alterTable block => some block.table
  | .calls list => list.findSome? ConnectionCall.table?
  | .comment _ => none

def statementCount : Group → Nat
  | .createTable block => block.statements.length
  | .alterTable block => block.statements.length
  | .calls list => list.length
  | .comment _ => 0

def descriptions : Group → List String
  | .createTable block => block.statements.map Statement.description
  | .alterTable block => block.statements.map Statement.description
  | .calls list => list.map ConnectionCall.description
  | .comment _ => []

end Group

namespace PassKind

def name : PassKind → String
  | .createdTables => "CreatedTables"
  | .updatedTables => "UpdatedTables"
  | .relationships => "Relationships"
  | .deletedTables => "DeletedTables"

def spacesGroups : PassKind → Bool
  | .relationships => false
  | _ => true

end PassKind

namespace Plan

def empty : Plan := ⟨[]⟩

def isEmpty (p : Plan) : Bool := p.passes.isEmpty

def pass? (p : Plan) (kind : PassKind) : Option Pass := p.passes.find? (·.kind = kind)

def groups (p : Plan) : List Group := p.passes.flatMap (·.groups)

def statementCount (p : Plan) : Nat :=
  p.groups.foldr (fun g count => g.statementCount + count) 0

end Plan

end SchemaMigration
