import SchemaMigration.Plan.Basic
import SchemaMigration.Script.Writer

/-!
This module contains dialects, which say how the single lines of a script are written, and the
layout that scripts of every dialect have: one statement a line, the statements of a table one level
deeper than the lines around them, and blank lines between passes and between most groups.
-/

namespace SchemaMigration

structure Dialect where
  unit : String
  preamble : List String
  openScript : String → List String
  closeScript : List String
  openProcedure : String → List String
  closeProcedure : List String
  openCreate : String → String → String
  openAlter : String → String → String
  closeTable : String
  column : ColumnCall → String
  dropColumn : String → String
  dropForeign : List String → String
  foreign : ForeignKey → String
  call : ConnectionCall → String
  comment : String → String

namespace Dialect

variable (d : Dialect)

def statement : Statement → String
  | .column call => d.column call
  | .dropColumn name => d.dropColumn name
  | .dropForeign columns => d.dropForeign columns
  | .foreign key => d.foreign key
  | .connection call => d.call call

def writeBody (w : Writer) (statements : List Statement) : Writer :=
  (w.indent.writeLines (statements.map d.statement)).outdent.line d.closeTable

def writeGroup (w : Writer) : Group → Writer
  | .createTable b => d.writeBody (w.line (d.openCreate b.connection b.table)) b.statements
  | .alterTable b => d.writeBody (w.line (d.openAlter b.connection b.table)) b.statements
  | .calls list => w.writeLines (list.map d.call)
  | .comment text => w.line (d.comment text)

def writeAll {α : Type} (separated : Bool) (write : Writer → α → Writer) (w : Writer) :
    List α → Writer
  | [] => w
  | a :: as => as.foldl (fun w a => write (if separated then w.blank else w) a) (write w a)

def writePass (w : Writer) (p : Pass) : Writer :=
  writeAll p.kind.spacesGroups d.writeGroup w p.groups

def writePlan (w : Writer) (p : Plan) : Writer :=
  writeAll true d.writePass w p.passes

def writeProcedure (w : Writer) (name : String) (p : Plan) : Writer :=
  (d.writePlan (w.writeLines (d.openProcedure name)).indent p).outdent.writeLines d.closeProcedure

def writePreamble (w : Writer) : Writer :=
  d.preamble.foldl (fun w text => if text.isEmpty then w.blank else w.line text) w

end Dialect

end SchemaMigration
