import SchemaMigration.Json.Printer
import SchemaMigration.Script.Dialect
import SchemaMigration.Text.SingleQuoted

/-!
This module contains the dialect of scripts that call a schema builder: a script is a class with one
method for each direction, and a table is changed inside a function that gets its blueprint. Names
are literals between single quotes, and values are written as JSON.
-/

namespace SchemaMigration.SchemaBuilder

def schema (connection : String) : String :=
  "Schema::connection(" ++ Text.SingleQuoted.encode connection ++ ")"

def openTable (method connection table : String) : String :=
  schema connection ++ "->" ++ method ++ "(" ++ Text.SingleQuoted.encode table
    ++ ", function (Blueprint $table) \x7b"

def argument : Argument → String
  | .none => ""
  | .literal value => value.compact
  | .raw expression => expression

def modifier (m : Modifier) : String :=
  "->" ++ m.method ++ "(" ++ argument m.arg ++ ")"

def column (c : ColumnCall) : String :=
  "$table->" ++ c.type ++ "(" ++ ", ".intercalate (c.args.map Json.compact) ++ ")"
    ++ String.join (c.modifiers.map modifier)
    ++ (if c.change then "->change()" else "") ++ ";"

def dropForeign (columns : List String) : String :=
  "$table->dropForeign([" ++ ", ".intercalate (columns.map Text.SingleQuoted.encode) ++ "]);"

def foreign (key : ForeignKey) : String :=
  "$table->foreign(" ++ Text.SingleQuoted.encode key.column
    ++ ")->references(" ++ Text.SingleQuoted.encode key.references
    ++ ")->on(" ++ Text.SingleQuoted.encode key.on ++ ");"

def call : ConnectionCall → String
  | .disableForeignKeys connection => schema connection ++ "->disableForeignKeyConstraints();"
  | .enableForeignKeys connection => schema connection ++ "->enableForeignKeyConstraints();"
  | .dropTable connection table =>
    schema connection ++ "->drop(" ++ Text.SingleQuoted.encode table ++ ");"

end SchemaMigration.SchemaBuilder

namespace SchemaMigration

def Dialect.schemaBuilder : Dialect where
  unit := "    "
  preamble := [
    "<?php",
    "",
    "use Illuminate\\Support\\Facades\\Schema;",
    "use Illuminate\\Database\\Schema\\Blueprint;",
    "use Illuminate\\Database\\Migrations\\Migration;",
    ""]
  openScript name := ["class " ++ name ++ " extends Migration", "\x7b"]
  closeScript := ["\x7d"]
  openProcedure name := ["public function " ++ name ++ "()", "\x7b"]
  closeProcedure := ["\x7d"]
  openCreate := SchemaBuilder.openTable "create"
  openAlter := SchemaBuilder.openTable "table"
  closeTable := "\x7d);"
  column := SchemaBuilder.column
  dropColumn name := "$table->dropColumn(" ++ Text.SingleQuoted.encode name ++ ");"
  dropForeign := SchemaBuilder.dropForeign
  foreign := SchemaBuilder.foreign
  call := SchemaBuilder.call
  comment text := "// " ++ text

end SchemaMigration
