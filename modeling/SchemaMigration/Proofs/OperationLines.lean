import SchemaMigration.Proofs.SchemaBuilder
import Mathlib.Logic.Function.Basic

/-!
This module contains the reading of single lines of scripts that call a schema builder, for the lines
that have names in them and no values. Fixed text is compared, and names are scanned as literals.
Whatever the names are, the line of an operation is read as this operation.
-/

namespace SchemaMigration

open Text

inductive Operation where
  | openCreate (connection table : String)
  | openAlter (connection table : String)
  | dropColumn (name : String)
  | dropForeign (columns : List String)
  | foreign (key : ForeignKey)
  | call (c : ConnectionCall)
  deriving DecidableEq

def Operation.line (d : Dialect) : Operation → String
  | .openCreate connection table => d.openCreate connection table
  | .openAlter connection table => d.openAlter connection table
  | .dropColumn name => d.statement (.dropColumn name)
  | .dropForeign columns => d.statement (.dropForeign columns)
  | .foreign key => d.statement (.foreign key)
  | .call c => d.statement (.connection c)

namespace SchemaBuilder

def readText (text : String) (cs : List Char) : Option (List Char) := cs.dropPrefix? text.toList

@[simp]
theorem readText_append (text : String) (rest : List Char) :
    readText text (text.toList ++ rest) = some rest :=
  List.dropPrefix?_append_of_beq rest (beq_self_eq_true _)

@[simp]
theorem read_quoted_append (s : String) (rest : List Char) :
    SingleQuoted.read (quoted s ++ rest) = some (s, rest) :=
  SingleQuoted.read_encode s rest

def readNames (cs : List Char) : Option (List String × List Char) :=
  match cs with
  | ']' :: rest => some ([], rest)
  | ',' :: ' ' :: cs =>
    match _h : SingleQuoted.read cs with
    | none => none
    | some (name, rest) => (readNames rest).map fun (names, rest) => (name :: names, rest)
  | _ => none
termination_by cs.length
decreasing_by
  have := SingleQuoted.length_read _h
  simp
  omega

theorem readNames_namesText (names : List String) (rest : List Char) :
    readNames (namesText names ++ ']' :: rest) = some (names, rest) := by
  induction names with
  | nil =>
    unfold readNames
    rfl
  | cons name names ih =>
    have hnames : namesText (name :: names) ++ ']' :: rest =
        ',' :: ' ' :: (quoted name ++ (namesText names ++ ']' :: rest)) := by
      simp [namesText]
    rw [hnames]
    unfold readNames
    simp only
    split
    . next h =>
      rw [read_quoted_append] at h
      contradiction
    . next h =>
      rw [read_quoted_append] at h
      cases h
      rw [ih]
      rfl

def columnsText : List String → List Char
  | [] => [']']
  | column :: columns => quoted column ++ (namesText columns ++ [']'])

theorem toList_dropForeign (columns : List String) :
    (dropForeign columns).toList =
      "$table->dropForeign([".toList ++ (columnsText columns ++ ");".toList) := by
  cases columns with
  | nil =>
    rw [toList_dropForeign_nil]
    decide
  | cons column columns =>
    rw [toList_dropForeign_cons]
    simp [columnsText]

def readColumns : List Char → Option (List String × List Char)
  | ']' :: rest => some ([], rest)
  | cs => do
    let (column, cs) ← SingleQuoted.read cs
    let (columns, cs) ← readNames cs
    some (column :: columns, cs)

@[simp]
theorem readColumns_columnsText (columns : List String) (rest : List Char) :
    readColumns (columnsText columns ++ rest) = some (columns, rest) := by
  cases columns with
  | nil => rfl
  | cons column columns =>
    have hcolumns : columnsText (column :: columns) ++ rest =
        quoted column ++ (namesText columns ++ ']' :: rest) := by
      simp [columnsText]
    rw [hcolumns, readColumns]
    . simp [readNames_namesText]
    . rw [quoted_append]
      simp

def readDropColumn (cs : List Char) : Option (Operation × List Char) := do
  let cs ← readText "$table->dropColumn(" cs
  let (name, cs) ← SingleQuoted.read cs
  let cs ← readText ");" cs
  some (.dropColumn name, cs)

def readDropForeign (cs : List Char) : Option (Operation × List Char) := do
  let cs ← readText "$table->dropForeign([" cs
  let (columns, cs) ← readColumns cs
  let cs ← readText ");" cs
  some (.dropForeign columns, cs)

def readForeign (cs : List Char) : Option (Operation × List Char) := do
  let cs ← readText "$table->foreign(" cs
  let (column, cs) ← SingleQuoted.read cs
  let cs ← readText ")->references(" cs
  let (references, cs) ← SingleQuoted.read cs
  let cs ← readText ")->on(" cs
  let (on, cs) ← SingleQuoted.read cs
  let cs ← readText ");" cs
  some (.foreign ⟨column, references, on⟩, cs)

def readPlain (text : String) (o : Operation) (cs : List Char) : Option (Operation × List Char) := do
  let cs ← readText text cs
  some (o, cs)

def readTable (front behind : String) (o : String → Operation) (cs : List Char) :
    Option (Operation × List Char) := do
  let cs ← readText front cs
  let (table, cs) ← SingleQuoted.read cs
  let cs ← readText behind cs
  some (o table, cs)

def readConnected (connection : String) (cs : List Char) : Option (Operation × List Char) :=
  readPlain "->disableForeignKeyConstraints();" (.call (.disableForeignKeys connection)) cs
    <|> readPlain "->enableForeignKeyConstraints();" (.call (.enableForeignKeys connection)) cs
    <|> readTable "->drop(" ");" (fun table => .call (.dropTable connection table)) cs
    <|> readTable "->create(" ", function (Blueprint $table) \x7b" (.openCreate connection) cs
    <|> readTable "->table(" ", function (Blueprint $table) \x7b" (.openAlter connection) cs

def readConnection (cs : List Char) : Option (Operation × List Char) := do
  let cs ← readText "Schema::connection(" cs
  let (connection, cs) ← SingleQuoted.read cs
  let cs ← readText ")" cs
  readConnected connection cs

def readOperation (cs : List Char) : Option (Operation × List Char) :=
  readDropColumn cs <|> readDropForeign cs <|> readForeign cs <|> readConnection cs

theorem readText_eq_none {text text' : String} (h : ¬text.toList <+: text'.toList)
    (h' : ¬text'.toList <+: text.toList) (rest : List Char) :
    readText text (text'.toList ++ rest) = none :=
  dropPrefix?_eq_none h h' rest

theorem schemaText_append (connection : String) (tail rest : List Char) :
    schemaText connection tail ++ rest = schemaText connection (tail ++ rest) := by
  unfold schemaText
  simp only [List.append_assoc]

theorem readConnected_callTail (c : ConnectionCall) (rest : List Char) :
    readConnected c.connection (callTail c ++ rest) = some (.call c, rest) := by
  cases c with
  | disableForeignKeys connection =>
    dsimp only [callTail, ConnectionCall.connection]
    simp [readConnected, readPlain, -String.reduceToList]
  | enableForeignKeys connection =>
    dsimp only [callTail, ConnectionCall.connection]
    simp (disch := decide) [readConnected, readPlain, readText_eq_none, -String.reduceToList]
  | dropTable connection table =>
    dsimp only [callTail, ConnectionCall.connection]
    simp (disch := decide) [readConnected, readPlain, readTable, readText_eq_none,
      -String.reduceToList]

theorem openTail_eq {method front : String} (h : "->" ++ method ++ "(" = front) (table : String) :
    openTail method table =
      front.toList ++ (quoted table ++ ", function (Blueprint $table) \x7b".toList) := by
  subst h
  unfold openTail
  simp only [String.toList_append]
  simp only [List.append_assoc]

theorem readConnected_create (connection table : String) (rest : List Char) :
    readConnected connection (openTail "create" table ++ rest) =
      some (.openCreate connection table, rest) := by
  rw [openTail_eq (show _ = "->create(" by decide)]
  simp only [List.append_assoc]
  simp (disch := decide) [readConnected, readPlain, readTable, readText_eq_none,
    -String.reduceToList]

theorem readConnected_alter (connection table : String) (rest : List Char) :
    readConnected connection (openTail "table" table ++ rest) =
      some (.openAlter connection table, rest) := by
  rw [openTail_eq (show _ = "->table(" by decide)]
  simp only [List.append_assoc]
  simp (disch := decide) [readConnected, readPlain, readTable, readText_eq_none,
    -String.reduceToList]

theorem readOperation_schemaText (connection : String) (tail : List Char) :
    readOperation (schemaText connection tail) = readConnected connection tail := by
  unfold schemaText
  simp (disch := decide) [readOperation, readDropColumn, readDropForeign, readForeign,
    readConnection, readText_eq_none, -String.reduceToList]

theorem readOperation_line (o : Operation) (rest : List Char) :
    readOperation ((o.line .schemaBuilder).toList ++ rest) = some (o, rest) := by
  cases o with
  | openCreate connection table =>
    change readOperation ((openTable "create" connection table).toList ++ rest) = _
    rw [toList_openTable, schemaText_append, readOperation_schemaText, readConnected_create]
  | openAlter connection table =>
    change readOperation ((openTable "table" connection table).toList ++ rest) = _
    rw [toList_openTable, schemaText_append, readOperation_schemaText, readConnected_alter]
  | dropColumn name =>
    change readOperation (statementText (.dropColumn name) ++ rest) = _
    rw [statementText_dropColumn]
    simp only [List.append_assoc]
    simp [readOperation, readDropColumn, -String.reduceToList]
  | dropForeign columns =>
    change readOperation ((dropForeign columns).toList ++ rest) = _
    rw [toList_dropForeign]
    simp only [List.append_assoc]
    simp (disch := decide) [readOperation, readDropColumn, readDropForeign, readText_eq_none,
      -String.reduceToList]
  | foreign key =>
    change readOperation ((foreign key).toList ++ rest) = _
    rw [toList_foreign]
    simp only [List.append_assoc]
    simp (disch := decide) [readOperation, readDropColumn, readDropForeign, readForeign,
      readText_eq_none, -String.reduceToList]
  | call c =>
    change readOperation ((call c).toList ++ rest) = _
    rw [toList_call, schemaText_append, readOperation_schemaText, readConnected_callTail]

end SchemaBuilder

/--
Names cannot escape their literals. A literal is read as the name in it, whatever comes behind it; so
the line of every operation is read as this operation, and no two operations have the same line.
-/
theorem operation_line_reads :
    (∀ (s : String) (rest : List Char),
      SingleQuoted.read ((SingleQuoted.encode s).toList ++ rest) = some (s, rest)) ∧
    (∀ (o : Operation) (rest : List Char),
      SchemaBuilder.readOperation ((o.line .schemaBuilder).toList ++ rest) = some (o, rest)) ∧
    Function.Injective (Operation.line .schemaBuilder) := by
  refine ⟨SingleQuoted.read_encode, SchemaBuilder.readOperation_line, ?_⟩
  intro o o' h
  have hread := SchemaBuilder.readOperation_line o []
  rw [h, SchemaBuilder.readOperation_line, Option.some.injEq, Prod.mk.injEq] at hread
  exact hread.1.symm

-- A name that looks like the end of a statement and the start of another one.
example : (Operation.dropColumn "a'); f('b\\").line .schemaBuilder =
    "$table->dropColumn('a\\'); f(\\'b\\\\');" := by decide

end SchemaMigration
