import SchemaMigration.Json.Variant
import SchemaMigration.Plan.Basic

/-!
This module contains the written form of plans and their parts. `toJson` writes a part. A structure
is read as its `record`, and a type with several constructors by its `variants`, one for each of
them.
-/

namespace SchemaMigration

open Json

def tagged (name : String) (content : Json) : Json := .object [(name, content)]

def jsonList {α : Type} (value : α → Json) (as : List α) : Json := .array (as.map value)

namespace Argument

def toJson : Argument → Json
  | .none => .string "None"
  | .literal value => tagged "Literal" value
  | .raw expression => tagged "Raw" (.string expression)

def variants : List (Variant Argument) := [
  ⟨"None", .none .none⟩,
  ⟨"Literal", .ofValue Reader.value .literal⟩,
  ⟨"Raw", .ofValue Reader.string .raw⟩]

end Argument

namespace Modifier

def toJson (m : Modifier) : Json :=
  .object [("method", .string m.method), ("arg", m.arg.toJson)]

def record : Record Modifier where
  expected := "struct Modifier"
  blank := ⟨"", .none⟩
  fields := [
    .mandatory "method" Reader.string fun method m => { m with method },
    .mandatory "arg" (Variant.read Argument.variants) fun arg m => { m with arg }]

end Modifier

namespace ColumnCall

def toJson (c : ColumnCall) : Json :=
  .object [
    ("column_type", .string c.type),
    ("args", .array c.args),
    ("modifiers", jsonList Modifier.toJson c.modifiers),
    ("change", .bool c.change)]

def record : Record ColumnCall where
  expected := "struct ColumnExpr"
  blank := ⟨"", [], [], false⟩
  fields := [
    .mandatory "column_type" Reader.string fun type c => { c with type },
    .mandatory "args" (Reader.list Reader.value) fun args c => { c with args },
    .mandatory "modifiers" (Reader.list Modifier.record.read) fun modifiers c =>
      { c with modifiers },
    .mandatory "change" Reader.bool fun change c => { c with change }]

end ColumnCall

namespace ConnectionCall

def toJson : ConnectionCall → Json
  | .disableForeignKeys connection =>
    tagged "DisableForeignKeyConstraints" (.object [("connection", .string connection)])
  | .enableForeignKeys connection =>
    tagged "EnableForeignKeyConstraints" (.object [("connection", .string connection)])
  | .dropTable connection table =>
    tagged "DropTable" (.object [("connection", .string connection), ("table", .string table)])

def connectionRecord (variant : String) : Record String where
  expected := "struct variant SchemaCall::" ++ variant
  blank := ""
  fields := [.mandatory "connection" Reader.string fun connection _ => connection]

def tableRecord (variant : String) : Record (String × String) where
  expected := "struct variant SchemaCall::" ++ variant
  blank := ("", "")
  fields := [
    .mandatory "connection" Reader.string fun connection call => (connection, call.2),
    .mandatory "table" Reader.string fun table call => (call.1, table)]

def variants : List (Variant ConnectionCall) := [
  ⟨"DisableForeignKeyConstraints",
    .ofRecord (connectionRecord "DisableForeignKeyConstraints") .disableForeignKeys⟩,
  ⟨"EnableForeignKeyConstraints",
    .ofRecord (connectionRecord "EnableForeignKeyConstraints") .enableForeignKeys⟩,
  ⟨"DropTable", .ofRecord (tableRecord "DropTable") fun call => .dropTable call.1 call.2⟩]

end ConnectionCall

namespace ForeignKey

def toJson (key : ForeignKey) : Json :=
  .object [
    ("column", .string key.column),
    ("references", .string key.references),
    ("on", .string key.on)]

def record : Record ForeignKey where
  expected := "struct variant Statement::Foreign"
  blank := ⟨"", "", ""⟩
  fields := [
    .mandatory "column" Reader.string fun column key => { key with column },
    .mandatory "references" Reader.string fun references key => { key with references },
    .mandatory "on" Reader.string fun on key => { key with on }]

end ForeignKey

namespace Statement

def toJson : Statement → Json
  | .column call => tagged "Column" call.toJson
  | .dropColumn name => tagged "DropColumn" (.object [("name", .string name)])
  | .dropForeign columns => tagged "DropForeign" (.object [("columns", jsonList .string columns)])
  | .foreign key => tagged "Foreign" key.toJson
  | .connection call => tagged "Schema" call.toJson

def nameRecord : Record String where
  expected := "struct variant Statement::DropColumn"
  blank := ""
  fields := [.mandatory "name" Reader.string fun name _ => name]

def columnsRecord : Record (List String) where
  expected := "struct variant Statement::DropForeign"
  blank := []
  fields := [.mandatory "columns" (Reader.list Reader.string) fun columns _ => columns]

def variants : List (Variant Statement) := [
  ⟨"Column", .ofValue ColumnCall.record.read .column⟩,
  ⟨"DropColumn", .ofRecord nameRecord .dropColumn⟩,
  ⟨"DropForeign", .ofRecord columnsRecord .dropForeign⟩,
  ⟨"Foreign", .ofRecord ForeignKey.record .foreign⟩,
  ⟨"Schema", .ofValue (Variant.read ConnectionCall.variants) .connection⟩]

end Statement

namespace Block

def toJson (b : Block) : Json :=
  .object [
    ("connection", .string b.connection),
    ("table", .string b.table),
    ("statements", jsonList Statement.toJson b.statements)]

def record (variant : String) : Record Block where
  expected := "struct variant StatementGroup::" ++ variant
  blank := ⟨"", "", []⟩
  fields := [
    .mandatory "connection" Reader.string fun connection b => { b with connection },
    .mandatory "table" Reader.string fun table b => { b with table },
    .mandatory "statements" (Reader.list (Variant.read Statement.variants)) fun statements b =>
      { b with statements }]

end Block

namespace Group

def toJson : Group → Json
  | .createTable block => tagged "CreateTable" block.toJson
  | .alterTable block => tagged "AlterTable" block.toJson
  | .calls list => tagged "Schema" (jsonList ConnectionCall.toJson list)
  | .comment text => tagged "Comment" (.string text)

def variants : List (Variant Group) := [
  ⟨"CreateTable", .ofRecord (Block.record "CreateTable") .createTable⟩,
  ⟨"AlterTable", .ofRecord (Block.record "AlterTable") .alterTable⟩,
  ⟨"Schema", .ofValue (Reader.list (Variant.read ConnectionCall.variants)) .calls⟩,
  ⟨"Comment", .ofValue Reader.string .comment⟩]

end Group

namespace PassKind

def all : List PassKind := [.createdTables, .updatedTables, .relationships, .deletedTables]

def variants : List (Variant PassKind) := all.map fun kind => ⟨kind.name, .none kind⟩

end PassKind

namespace Pass

def toJson (p : Pass) : Json :=
  .object [("kind", .string p.kind.name), ("groups", jsonList Group.toJson p.groups)]

def record : Record Pass where
  expected := "struct Pass"
  blank := ⟨.createdTables, []⟩
  fields := [
    .mandatory "kind" (Variant.read PassKind.variants) fun kind p => { p with kind },
    .mandatory "groups" (Reader.list (Variant.read Group.variants)) fun groups p =>
      { p with groups }]

end Pass

namespace Plan

def toJson (p : Plan) : Json := .object [("passes", jsonList Pass.toJson p.passes)]

def record : Record Plan where
  expected := "struct CompiledChangeSet"
  blank := .empty
  fields := [
    .mandatory "passes" (Reader.list Pass.record.read) fun passes p => { p with passes }]

end Plan

end SchemaMigration
