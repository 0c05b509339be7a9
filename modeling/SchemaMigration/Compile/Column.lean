import SchemaMigration.ChangeSet.Basic
import SchemaMigration.Plan.Basic

/-!
This module contains the statements for the columns of one table. A foreign key that is in the way
of a change or of a deletion is dropped right before it, with the checking of foreign keys off.
-/

namespace SchemaMigration

def dropKeys (columns : List String) (connection : String) : List Statement :=
  match columns with
  | [] => []
  | columns => [
      .connection (.disableForeignKeys connection),
      .dropForeign columns,
      .connection (.enableForeignKeys connection)]

def Relation.dropKey (relation : Option Relation) (connection : String) : List Statement :=
  match relation with
  | some r => dropKeys [r.foreignKey] connection
  | none => []

namespace ColumnDef

def modifiers (c : ColumnDef) : List Modifier :=
  [ ("index", c.index.map .literal),
    ("unique", c.unique.map .literal),
    ("default", c.literalDefault.map .literal),
    ("default", c.rawDefault.map .raw),
    ("primary", c.primary.map .literal),
    ("unsigned", c.unsigned.map .literal),
    ("nullable", c.nullable.map .literal),
    ("useCurrent", c.useCurrent.map fun _ => .none)
  ].filterMap fun (method, arg) => arg.map fun arg => ⟨method, arg⟩

def call (c : ColumnDef) (declared : String) (change : Bool) : ColumnCall where
  type := c.type
  args := .string (c.databaseName declared) :: c.typeArgs
  modifiers := c.modifiers
  change := change

def creation (c : ColumnDef) (declared : String) : Statement :=
  .column (c.call declared false)

/--
The statements for an updated column. Its foreign key is dropped first; the new one comes with the
relationships, once every table is there.
-/
def update (c : ColumnDef) (declared connection : String) : List Statement :=
  Relation.dropKey c.belongsTo connection ++ [.column (c.call declared true)]

end ColumnDef

def ColumnDrop.deletion (c : ColumnDrop) (declared connection : String) : List Statement :=
  Relation.dropKey c.belongsTo connection ++ [.dropColumn declared]

def TableChange.statements (t : TableChange) : List Statement :=
  (bucketEntries t.created).map (fun (name, c) => c.creation name)
    ++ (bucketEntries t.updated).flatMap (fun (name, c) => c.update name t.connection)
    ++ (bucketEntries t.deleted).flatMap (fun (name, c) => c.deletion name t.connection)

@[simp]
theorem dropKeys_nil (connection : String) : dropKeys [] connection = [] := rfl

@[simp]
theorem Relation.dropKey_none (connection : String) : Relation.dropKey none connection = [] := rfl

@[simp]
theorem ColumnDef.name?_call (c : ColumnDef) (declared : String) (change : Bool) :
    (c.call declared change).name? = some (c.databaseName declared) := rfl

end SchemaMigration
