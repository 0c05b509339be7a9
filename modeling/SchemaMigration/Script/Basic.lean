import SchemaMigration.Compile.Basic
import SchemaMigration.Plan.Document
import SchemaMigration.Script.Dialect

/-!
This module contains migration scripts: a name, and a plan for each of the two directions.
-/

namespace SchemaMigration

structure Script where
  name : String
  up : Plan
  down : Plan
  deriving BEq

namespace Script

def isNameStart (c : Char) : Bool := c.isAlpha || c == '_'

def isNamePart (c : Char) : Bool := c.isAlphanum || c == '_'

def isName (name : String) : Bool :=
  match name.toList with
  | [] => false
  | c :: cs => isNameStart c && cs.all isNamePart

def checkName (name : String) : Except Error Unit :=
  if isName name then .ok () else .error (.malformed (.scriptName name))

def assembleWith (lookup : Lookup) (options : Options) (name : String) (up down : ChangeSet) :
    Except Error Script := do
  checkName name
  let up ← up.compileWith lookup options
  let down ← down.compileWith lookup options
  .ok ⟨name, up, down⟩

def assemble (registry : Registry) (options : Options) (name : String) (up down : ChangeSet) :
    Except Error Script :=
  assembleWith registry.lookup options name up down

def toJson (s : Script) : Json :=
  .object [("name", .string s.name), ("up", s.up.toJson), ("down", s.down.toJson)]

def render (d : Dialect) (s : Script) : String :=
  let start := (d.writePreamble { unit := d.unit }).writeLines (d.openScript s.name)
  let up := d.writeProcedure start.indent "up" s.up
  let down := d.writeProcedure up.blank "down" s.down
  (down.outdent.writeLines d.closeScript).text

def generateWith (d : Dialect) (lookup : Lookup) (options : Options) (name : String)
    (up down : ChangeSet) : Except Error String := do
  let script ← assembleWith lookup options name up down
  .ok (script.render d)

def generate (d : Dialect) (registry : Registry) (options : Options) (name : String)
    (up down : ChangeSet) : Except Error String :=
  generateWith d registry.lookup options name up down

end Script

end SchemaMigration
