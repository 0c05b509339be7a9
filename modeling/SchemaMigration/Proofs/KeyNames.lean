import SchemaMigration.Proofs.Compile
import SchemaMigration.Proofs.Interpolated
import SchemaMigration.Proofs.OperationLines

/-!
This module contains the names of columns that have foreign keys, as a script denotes them. The
definition of a column has its name as a string of JSON, the adding and the dropping of its key have
it between single quotes. A name that JSON does not spell as scripts do is another one there, or none
at all.
-/

namespace SchemaMigration

open Json Text

namespace SchemaBuilder

def columnName? (type line : String) : Option (List UInt8) := do
  let cs ← readText ("$table->" ++ type ++ "(") line.toList
  (Interpolated.read cs).map (·.1)

def quotedName? (text line : String) : Option (List UInt8) := do
  let cs ← readText text line.toList
  (SingleQuoted.read cs).map fun (name, _) => Interpolated.bytes name.toList

def foreignName? (line : String) : Option (List UInt8) := quotedName? "$table->foreign(" line

def dropForeignName? (line : String) : Option (List UInt8) :=
  quotedName? "$table->dropForeign([" line

theorem quotedName?_append {text line name : String} {rest : List Char}
    (h : line.toList = text.toList ++ (quoted name ++ rest)) :
    quotedName? text line = some (Interpolated.bytes name.toList) := by
  unfold quotedName?
  rw [h]
  simp

theorem foreignName?_foreign (key : ForeignKey) :
    foreignName? (Dialect.schemaBuilder.statement (.foreign key)) =
      some (Interpolated.bytes key.column.toList) :=
  quotedName?_append (toList_foreign key)

theorem dropForeignName?_dropForeign (name : String) (names : List String) :
    dropForeignName? (Dialect.schemaBuilder.statement (.dropForeign (name :: names))) =
      some (Interpolated.bytes name.toList) :=
  quotedName?_append (toList_dropForeign_cons name names)

theorem columnName?_call_eq_some_iff (c : ColumnDef) (declared : String) (change : Bool) :
    columnName? c.type (Dialect.schemaBuilder.statement (.column (c.call declared change))) =
        some (Interpolated.bytes (c.databaseName declared).toList) ↔
      Interpolated.Plain (c.databaseName declared).toList := by
  have hline := toList_column (show (c.call declared change).args = _ :: _ from rfl)
  have hfront : (Dialect.schemaBuilder.statement (.column (c.call declared change))).toList =
      ("$table->" ++ c.type ++ "(").toList ++ (Quoted.encode (c.databaseName declared) ++
        (argsText c.typeArgs
          ++ ')' :: (c.modifiers.flatMap modifierText ++ changeText change))) := by
    simp only [String.toList_append, List.append_assoc]
    exact hline
  unfold columnName?
  rw [hfront, readText_append, Option.bind_eq_bind, Option.bind_some, Option.map_eq_some_iff]
  constructor
  . intro h
    obtain ⟨⟨name, rest⟩, hread, hname⟩ := h
    obtain rfl : name = _ := hname
    exact (Interpolated.read_encode_eq_some_iff.mp hread).1
  . intro h
    exact ⟨_, Interpolated.read_encode_eq_some_iff.mpr ⟨h, rfl⟩, rfl⟩

theorem dropForeign_mem_update_iff {c : ColumnDef} {r : Relation} (hr : c.belongsTo = some r)
    {declared connection : String} {columns : List String} :
    .dropForeign columns ∈ c.update declared connection ↔ columns = [r.foreignKey] := by
  unfold ColumnDef.update Relation.dropKey
  rw [hr]
  simp [dropKeys]

end SchemaBuilder

open SchemaBuilder in
/--
For a column with a relation, the lines that add and drop its key denote the name of the key. The
definition of the column denotes the same name just if JSON spells it as scripts do: no variable
starts in it, and it has no control characters but tabs, line ends and form feeds.
-/
theorem columnName?_eq_foreignName?_iff {c : ColumnDef} {r : Relation} (hr : c.belongsTo = some r)
    {lookup : Lookup} {key : ForeignKey} (hkey : r.resolve lookup = .ok key)
    (declared connection : String) (change : Bool) :
    foreignName? (Dialect.schemaBuilder.statement (.foreign key)) =
      some (Interpolated.bytes r.foreignKey.toList) ∧
    .dropForeign [r.foreignKey] ∈ c.update declared connection ∧
    (∀ columns, .dropForeign columns ∈ c.update declared connection →
      dropForeignName? (Dialect.schemaBuilder.statement (.dropForeign columns)) =
        foreignName? (Dialect.schemaBuilder.statement (.foreign key))) ∧
    (columnName? c.type (Dialect.schemaBuilder.statement (.column (c.call declared change))) =
        foreignName? (Dialect.schemaBuilder.statement (.foreign key)) ↔
      Interpolated.Plain r.foreignKey.toList) := by
  have hname : c.databaseName declared = r.foreignKey := by
    unfold ColumnDef.databaseName
    rw [hr]
  have hcolumn : key.column = r.foreignKey := by
    obtain ⟨entity, _, rfl⟩ := Relation.resolve_eq_ok_iff.mp hkey
    rfl
  have hforeign := foreignName?_foreign key
  rw [hcolumn] at hforeign
  rw [hforeign]
  refine ⟨rfl, (dropForeign_mem_update_iff hr).mpr rfl, ?_, ?_⟩
  . intro columns hcolumns
    rw [(dropForeign_mem_update_iff hr).mp hcolumns]
    exact dropForeignName?_dropForeign r.foreignKey []
  . rw [← hname]
    exact columnName?_call_eq_some_iff c declared change

def dollarColumn : ColumnDef := { type := "integer", belongsTo := some ⟨"a$b", "User"⟩ }

theorem dollarColumn_names_differ :
    dollarColumn.belongsTo = some ⟨"a$b", "User"⟩ ∧
    (⟨"a$b", "User"⟩ : Relation).resolve blogRegistry.lookup = .ok ⟨"a$b", "id", "users"⟩ ∧
    SchemaBuilder.columnName? "integer"
      (Dialect.schemaBuilder.statement (.column (dollarColumn.call "owner" true))) ≠
      SchemaBuilder.foreignName?
        (Dialect.schemaBuilder.statement (.foreign ⟨"a$b", "id", "users"⟩)) := by
  refine ⟨rfl, rfl, ?_⟩
  decide

def writerColumn : ColumnDef := { type := "integer", belongsTo := some ⟨"writer_id", "User"⟩ }

theorem writerColumn_names_agree :
    writerColumn.belongsTo = some ⟨"writer_id", "User"⟩ ∧
    (⟨"writer_id", "User"⟩ : Relation).resolve blogRegistry.lookup =
      .ok ⟨"writer_id", "id", "users"⟩ ∧
    SchemaBuilder.columnName? "integer"
      (Dialect.schemaBuilder.statement (.column (writerColumn.call "writer" true))) =
      SchemaBuilder.foreignName?
        (Dialect.schemaBuilder.statement (.foreign ⟨"writer_id", "id", "users"⟩)) := by
  have hrelation : writerColumn.belongsTo = some ⟨"writer_id", "User"⟩ := rfl
  have hkey : (⟨"writer_id", "User"⟩ : Relation).resolve blogRegistry.lookup =
      .ok ⟨"writer_id", "id", "users"⟩ := rfl
  have hplain : Interpolated.Plain "writer_id".toList := by decide
  obtain ⟨_, _, _, hnames⟩ :=
    columnName?_eq_foreignName?_iff hrelation hkey "writer" "main" true
  exact ⟨hrelation, hkey, hnames.mpr hplain⟩

end SchemaMigration
