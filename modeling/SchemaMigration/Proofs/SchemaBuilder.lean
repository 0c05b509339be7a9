import SchemaMigration.Proofs.Layout
import SchemaMigration.Proofs.PlanText
import SchemaMigration.Proofs.SingleQuoted
import SchemaMigration.Script.SchemaBuilder

/-!
This module contains the wording of the single lines of scripts that call a schema builder. Each line
can be told from what follows it: if two texts are equal that each begin with a line, then the lines
are equal and so are the rests. Names may be any strings; values must be ones that are read as they
were written.
-/

namespace SchemaMigration

open Json Json.Lexeme Text

structure Modifier.Legible (m : Modifier) : Prop where
  method : '(' ∉ m.method.toList
  method_ne : m.method ≠ "change"
  arg : ∀ expression, m.arg ≠ .raw expression
  values : ∀ v ∈ m.arg.values, v.Exact

structure ColumnCall.Legible (c : ColumnCall) : Prop where
  type : '(' ∉ c.type.toList
  args : ∃ name args, c.args = .string name :: args
  values : ∀ v ∈ c.args, v.Exact
  modifiers : ∀ m ∈ c.modifiers, m.Legible

def Statement.Legible : Statement → Prop
  | .column call => call.Legible
  | _ => True

def Line.Legible : Line → Prop
  | .statement s => s.Legible
  | .comment text => '\n' ∉ text.toList
  | _ => True

namespace SchemaBuilder

def valueText (j : Json) : List Char := write .compact 0 j

theorem toList_compact (j : Json) : j.compact.toList = valueText j := by
  simp [compact, valueText]

theorem value_cancel {j j' : Json} (hj : j.Exact) (hj' : j'.Exact) {rest rest' : List Char}
    (hrest : EndsNumber rest) (hrest' : EndsNumber rest')
    (h : valueText j ++ rest = valueText j' ++ rest') : j = j' ∧ rest = rest' := by
  have hread := (ReadsBack.exact hj).finds 0 Style.blank_compact
    (Nat.le_max_left j.height j'.height)
  have hread' := (ReadsBack.exact hj').finds 0 Style.blank_compact
    (Nat.le_max_right j.height j'.height)
  have heq := hread.reads_plain hrest
  have heq' := hread'.reads_plain hrest'
  unfold valueText at h
  rw [h, heq', Except.ok.injEq, Prod.mk.injEq] at heq
  exact ⟨heq.1.symm, heq.2.symm⟩

theorem startsValue_valueText {j : Json} (hj : j.Exact) : startsValue (valueText j) :=
  ((ReadsBack.exact hj).finds 0 Style.blank_compact (Nat.le_refl j.height)).starts

def argsText (args : List Json) : List Char :=
  args.flatMap fun arg => ',' :: ' ' :: valueText arg

theorem endsNumber_argsText (args : List Json) (rest : List Char) :
    EndsNumber (argsText args ++ ')' :: rest) := by
  cases args <;> simp [argsText]

theorem delimited_arg :
    Delimited Exact EndsNumber fun arg => ',' :: ' ' :: valueText arg where
  follows := by simp
  cancel := by
    intro arg arg' rest rest' harg harg' hrest hrest' h
    simp only [List.cons_append, List.cons.injEq, true_and] at h
    exact value_cancel harg harg' hrest hrest' h

theorem args_cancel {args args' : List Json} (hargs : ∀ v ∈ args, v.Exact)
    (hargs' : ∀ v ∈ args', v.Exact) {rest rest' : List Char}
    (h : argsText args ++ ')' :: rest = argsText args' ++ ')' :: rest') :
    args = args' ∧ rest = rest' := by
  obtain ⟨hargs, hrest⟩ := delimited_arg.flatMap_cancel hargs hargs' (by simp) (by simp) (by simp)
    (by simp) h
  exact ⟨hargs, List.tail_eq_of_cons_eq hrest⟩

theorem ne_closing_of_value {j : Json} (hj : j.Exact) {rest rest' : List Char} :
    valueText j ++ rest ≠ ')' :: rest' := by
  intro h
  have hstarts := startsValue_append (startsValue_valueText hj) rest
  rw [h] at hstarts
  simp [startsValue] at hstarts

def modifierText (m : Modifier) : List Char :=
  '-' :: '>' :: (m.method.toList ++ '(' :: ((argument m.arg).toList ++ [')']))

theorem toList_modifier (m : Modifier) : (modifier m).toList = modifierText m := by
  simp [modifier, modifierText]

theorem argument_cancel {arg arg' : Argument} (harg : ∀ expression, arg ≠ .raw expression)
    (harg' : ∀ expression, arg' ≠ .raw expression) (hvalues : ∀ v ∈ arg.values, v.Exact)
    (hvalues' : ∀ v ∈ arg'.values, v.Exact) {rest rest' : List Char}
    (h : (argument arg).toList ++ ')' :: rest = (argument arg').toList ++ ')' :: rest') :
    arg = arg' ∧ rest = rest' := by
  cases arg with
  | raw expression => exact absurd rfl (harg expression)
  | none =>
    cases arg' with
    | raw expression => exact absurd rfl (harg' expression)
    | none => simpa [argument] using h
    | literal v' =>
      have hv' := hvalues' v' (by simp [Argument.values])
      simp only [argument, toList_compact] at h
      exact absurd h.symm (ne_closing_of_value hv')
  | literal v =>
    have hv := hvalues v (by simp [Argument.values])
    cases arg' with
    | raw expression => exact absurd rfl (harg' expression)
    | none =>
      simp only [argument, toList_compact] at h
      exact absurd h (ne_closing_of_value hv)
    | literal v' =>
      have hv' := hvalues' v' (by simp [Argument.values])
      simp only [argument, toList_compact] at h
      obtain ⟨rfl, hrest⟩ := value_cancel hv hv' (by simp) (by simp) h
      simpa using hrest

theorem modifier_cancel {m m' : Modifier} (hm : m.Legible) (hm' : m'.Legible)
    {rest rest' : List Char} (h : modifierText m ++ rest = modifierText m' ++ rest') :
    m = m' ∧ rest = rest' := by
  have hmethod : m.method.toList ++ '(' :: ((argument m.arg).toList ++ ')' :: rest) =
      m'.method.toList ++ '(' :: ((argument m'.arg).toList ++ ')' :: rest') := by
    simpa [modifierText] using h
  obtain ⟨hname, harg⟩ := until_cancel hm.method hm'.method hmethod
  obtain ⟨harg, hrest⟩ := argument_cancel hm.arg hm'.arg hm.values hm'.values harg
  rw [String.toList_inj] at hname
  cases m
  cases m'
  simp_all

def changeText (change : Bool) : List Char :=
  (if change then "->change()" else "").toList ++ [';']

theorem changeText_ne_modifierText (change : Bool) {m : Modifier} (hm : m.Legible)
    {rest rest' : List Char} : changeText change ++ rest ≠ modifierText m ++ rest' := by
  intro h
  cases change with
  | false => simp [changeText, modifierText] at h
  | true =>
    have hmethod : "change".toList ++ '(' :: (')' :: ';' :: rest) =
        m.method.toList ++ '(' :: ((argument m.arg).toList ++ ')' :: rest') := by
      simpa [changeText, modifierText] using h
    obtain ⟨hname, _⟩ := until_cancel (by simp) hm.method hmethod
    rw [String.toList_inj] at hname
    exact hm.method_ne hname.symm

theorem changeText_cancel {change change' : Bool} {rest rest' : List Char}
    (h : changeText change ++ rest = changeText change' ++ rest') :
    change = change' ∧ rest = rest' := by
  cases change <;> cases change' <;> simp_all [changeText]

theorem delimited_modifier : Delimited Modifier.Legible (fun _ => True) modifierText where
  follows := by simp
  cancel hm hm' _ _ h := modifier_cancel hm hm' h

theorem modifiers_cancel {ms ms' : List Modifier} {change change' : Bool}
    (hms : ∀ m ∈ ms, m.Legible) (hms' : ∀ m ∈ ms', m.Legible) {rest rest' : List Char}
    (h : ms.flatMap modifierText ++ (changeText change ++ rest) =
      ms'.flatMap modifierText ++ (changeText change' ++ rest')) :
    ms = ms' ∧ change = change' ∧ rest = rest' := by
  obtain ⟨hmodifiers, hrest⟩ := delimited_modifier.flatMap_cancel hms hms' trivial trivial
    (fun hm => changeText_ne_modifierText change hm)
    (fun hm => changeText_ne_modifierText change' hm) h
  exact ⟨hmodifiers, changeText_cancel hrest⟩

def columnTail (name : String) (args : List Json) (c : ColumnCall) : List Char :=
  valueText (.string name) ++ (argsText args
    ++ ')' :: (c.modifiers.flatMap modifierText ++ changeText c.change))

theorem toList_column {c : ColumnCall} {name : String} {args : List Json}
    (hargs : c.args = .string name :: args) :
    (column c).toList = "$table->".toList ++ (c.type.toList ++ '(' :: columnTail name args c) := by
  have hjoin : (", ".intercalate (c.args.map compact)).toList =
      valueText (.string name) ++ argsText args := by
    rw [String.toList_intercalate, hargs, List.map_cons, List.map_cons, intercalate_cons]
    simp [argsText, toList_compact, List.flatMap_map]
  have hmodifiers : (String.join (c.modifiers.map modifier)).toList =
      c.modifiers.flatMap modifierText := by
    rw [String.toList_join, List.flatMap_map]
    simp [toList_modifier]
  unfold column columnTail
  simp only [String.toList_append, hjoin, hmodifiers, changeText]
  simp

theorem column_cancel {c c' : ColumnCall} (hc : c.Legible) (hc' : c'.Legible)
    {rest rest' : List Char} (h : (column c).toList ++ rest = (column c').toList ++ rest') :
    c = c' ∧ rest = rest' := by
  obtain ⟨name, args, hargs⟩ := hc.args
  obtain ⟨name', args', hargs'⟩ := hc'.args
  have hvalues := hc.values
  have hvalues' := hc'.values
  rw [hargs, List.forall_mem_cons] at hvalues
  rw [hargs', List.forall_mem_cons] at hvalues'
  rw [toList_column hargs, toList_column hargs'] at h
  simp only [List.append_assoc, List.append_cancel_left_eq, List.cons_append] at h
  obtain ⟨htype, htail⟩ := until_cancel hc.type hc'.type h
  simp only [columnTail, List.append_assoc, List.cons_append] at htail
  obtain ⟨hname, htail⟩ := value_cancel hvalues.1 hvalues'.1 (endsNumber_argsText _ _)
    (endsNumber_argsText _ _) htail
  obtain ⟨hargs_eq, htail⟩ := args_cancel hvalues.2 hvalues'.2 htail
  obtain ⟨hmodifiers, hchange, hrest⟩ := modifiers_cancel hc.modifiers hc'.modifiers htail
  refine ⟨?_, hrest⟩
  rw [String.toList_inj] at htype
  cases c
  cases c'
  simp_all

theorem column_ne {c : ColumnCall} (hc : c.Legible) {method : String} (hmethod : '(' ∉ method.toList)
    {mark : Char} (hmark : mark ≠ '"') {rest rest' : List Char} :
    (column c).toList ++ rest ≠ "$table->".toList ++ (method.toList ++ '(' :: mark :: rest') := by
  intro h
  obtain ⟨name, args, hargs⟩ := hc.args
  rw [toList_column hargs] at h
  simp only [List.append_assoc, List.append_cancel_left_eq, List.cons_append] at h
  obtain ⟨_, htail⟩ := until_cancel hc.type hmethod h
  simp only [columnTail, valueText, write, Quoted.encode, List.cons_append, List.cons.injEq] at htail
  exact hmark htail.1.symm

def quoted (s : String) : List Char := (SingleQuoted.encode s).toList

theorem quoted_append (s : String) (rest : List Char) :
    quoted s ++ rest = '\'' :: (SingleQuoted.encodeChars s.toList ++ '\'' :: rest) :=
  SingleQuoted.encode_append s rest

theorem quoted_cancel {front behind : List Char} {name name' : String} {rest rest' : List Char}
    (h : front ++ (quoted name ++ (behind ++ rest)) = front ++ (quoted name' ++ (behind ++ rest'))) :
    name = name' ∧ rest = rest' := by
  have hname := List.append_cancel_left h
  obtain ⟨hname, hrest⟩ := SingleQuoted.encode_cancel hname
  exact ⟨hname, List.append_cancel_left hrest⟩

def namesText (names : List String) : List Char :=
  names.flatMap fun name => ',' :: ' ' :: quoted name

theorem delimited_name :
    Delimited (fun _ => True) (fun _ => True) fun name => ',' :: ' ' :: quoted name where
  follows := by simp
  cancel := by
    intro name name' rest rest' _ _ _ _ h
    simp only [List.cons_append, List.cons.injEq, true_and] at h
    exact SingleQuoted.encode_cancel h

theorem names_cancel {names names' : List String} {rest rest' : List Char}
    (h : namesText names ++ ']' :: rest = namesText names' ++ ']' :: rest') :
    names = names' ∧ rest = rest' := by
  obtain ⟨hnames, hrest⟩ := delimited_name.flatMap_cancel (by simp) (by simp) trivial trivial
    (by simp) (by simp) h
  exact ⟨hnames, List.tail_eq_of_cons_eq hrest⟩

theorem toList_dropForeign_nil : (dropForeign []).toList = "$table->dropForeign([]);".toList := rfl

theorem toList_dropForeign_cons (name : String) (names : List String) :
    (dropForeign (name :: names)).toList =
      "$table->dropForeign([".toList ++ (quoted name ++ (namesText names ++ "]);".toList)) := by
  unfold dropForeign
  rw [String.toList_append, String.toList_append, String.toList_intercalate, List.map_cons,
    List.map_cons, intercalate_cons]
  simp [namesText, quoted, List.flatMap_map]

theorem dropForeign_cancel {names names' : List String} {rest rest' : List Char}
    (h : (dropForeign names).toList ++ rest = (dropForeign names').toList ++ rest') :
    names = names' ∧ rest = rest' := by
  cases names with
  | nil =>
    cases names' with
    | nil => simpa [toList_dropForeign_nil] using h
    | cons name' names' =>
      simp [toList_dropForeign_nil, toList_dropForeign_cons, quoted_append] at h
  | cons name names =>
    cases names' with
    | nil => simp [toList_dropForeign_nil, toList_dropForeign_cons, quoted_append] at h
    | cons name' names' =>
      rw [toList_dropForeign_cons, toList_dropForeign_cons] at h
      simp only [List.append_assoc, List.append_cancel_left_eq] at h
      obtain ⟨rfl, htail⟩ := SingleQuoted.encode_cancel h
      have hnames : namesText names ++ ']' :: (")".toList ++ (";".toList ++ rest)) =
          namesText names' ++ ']' :: (")".toList ++ (";".toList ++ rest')) := by
        simpa using htail
      obtain ⟨rfl, hrest⟩ := names_cancel hnames
      exact ⟨rfl, by simpa using hrest⟩

theorem toList_foreign (key : ForeignKey) :
    (foreign key).toList = "$table->foreign(".toList ++ (quoted key.column
      ++ (")->references(".toList ++ (quoted key.references
        ++ (")->on(".toList ++ (quoted key.on ++ ");".toList))))) := by
  unfold foreign quoted
  simp only [String.toList_append]
  simp only [List.append_assoc]

theorem foreign_cancel {key key' : ForeignKey} {rest rest' : List Char}
    (h : (foreign key).toList ++ rest = (foreign key').toList ++ rest') :
    key = key' ∧ rest = rest' := by
  rw [toList_foreign, toList_foreign] at h
  simp only [List.append_assoc] at h
  obtain ⟨hcolumn, h⟩ := quoted_cancel h
  obtain ⟨hreferences, h⟩ := SingleQuoted.encode_cancel h
  have hon := List.append_cancel_left h
  obtain ⟨hon, h⟩ := SingleQuoted.encode_cancel hon
  have hrest := List.append_cancel_left h
  cases key
  cases key'
  simp_all

def schemaText (connection : String) (tail : List Char) : List Char :=
  "Schema::connection(".toList ++ (quoted connection ++ (")".toList ++ tail))

def callTail : ConnectionCall → List Char
  | .disableForeignKeys _ => "->disableForeignKeyConstraints();".toList
  | .enableForeignKeys _ => "->enableForeignKeyConstraints();".toList
  | .dropTable _ table => "->drop(".toList ++ (quoted table ++ ");".toList)

def openTail (method table : String) : List Char :=
  "->".toList ++ (method.toList ++ ("(".toList ++ (quoted table
    ++ ", function (Blueprint $table) \x7b".toList)))

theorem toList_schema_append (connection : String) (tail : List Char) :
    (schema connection).toList ++ tail = schemaText connection tail := by
  unfold schema schemaText quoted
  simp only [String.toList_append]
  simp only [List.append_assoc]

theorem toList_call (c : ConnectionCall) :
    (call c).toList = schemaText c.connection (callTail c) := by
  rw [← toList_schema_append]
  cases c with
  | disableForeignKeys connection => exact String.toList_append
  | enableForeignKeys connection => exact String.toList_append
  | dropTable connection table =>
    unfold call callTail quoted
    simp only [String.toList_append]
    simp only [List.append_assoc]
    rfl

theorem toList_openTable (method connection table : String) :
    (openTable method connection table).toList = schemaText connection (openTail method table) := by
  rw [← toList_schema_append]
  unfold openTable openTail quoted
  simp only [String.toList_append]
  simp only [List.append_assoc]

theorem schema_cancel {connection connection' : String} {tail tail' rest rest' : List Char}
    (h : schemaText connection tail ++ rest = schemaText connection' tail' ++ rest') :
    connection = connection' ∧ tail ++ rest = tail' ++ rest' := by
  unfold schemaText at h
  simp only [List.append_assoc] at h
  exact quoted_cancel h

theorem callTail_cancel {c c' : ConnectionCall} (hconnection : c.connection = c'.connection)
    {rest rest' : List Char} (h : callTail c ++ rest = callTail c' ++ rest') :
    c = c' ∧ rest = rest' := by
  cases c <;> cases c' <;> dsimp only [callTail] at h
  case dropTable.dropTable =>
    simp only [List.append_assoc] at h
    obtain ⟨rfl, hrest⟩ := quoted_cancel h
    exact ⟨congrArg (ConnectionCall.dropTable · _) hconnection, hrest⟩
  case disableForeignKeys.disableForeignKeys =>
    exact ⟨congrArg _ hconnection, List.append_cancel_left h⟩
  case enableForeignKeys.enableForeignKeys =>
    exact ⟨congrArg _ hconnection, List.append_cancel_left h⟩
  all_goals simp at h

theorem openTail_cancel {method table table' : String} {rest rest' : List Char}
    (h : openTail method table ++ rest = openTail method table' ++ rest') :
    table = table' ∧ rest = rest' := by
  unfold openTail at h
  simp only [List.append_assoc] at h
  have htable := List.append_cancel_left (List.append_cancel_left h)
  exact quoted_cancel htable

theorem call_cancel {c c' : ConnectionCall} {rest rest' : List Char}
    (h : (call c).toList ++ rest = (call c').toList ++ rest') : c = c' ∧ rest = rest' := by
  rw [toList_call, toList_call] at h
  obtain ⟨hconnection, htail⟩ := schema_cancel h
  exact callTail_cancel hconnection htail

def statementText (s : Statement) : List Char := (Dialect.schemaBuilder.statement s).toList

theorem statementText_dropColumn (name : String) :
    statementText (.dropColumn name) =
      "$table->dropColumn(".toList ++ (quoted name ++ ");".toList) := by
  change ("$table->dropColumn(" ++ Text.SingleQuoted.encode name ++ ");").toList = _
  unfold quoted
  simp only [String.toList_append]
  simp only [List.append_assoc]

theorem dropColumn_cancel {name name' : String} {rest rest' : List Char}
    (h : statementText (.dropColumn name) ++ rest = statementText (.dropColumn name') ++ rest') :
    name = name' ∧ rest = rest' := by
  rw [statementText_dropColumn, statementText_dropColumn] at h
  simp only [List.append_assoc] at h
  exact quoted_cancel h

def beginning : Statement → List Char
  | .column _ => []
  | .dropColumn _ => "$table->".toList ++ ("dropColumn".toList ++ ['(', '\''])
  | .dropForeign _ => "$table->".toList ++ ("dropForeign".toList ++ ['(', '['])
  | .foreign _ => "$table->".toList ++ ("foreign".toList ++ ['(', '\''])
  | .connection _ => "Schema::connection(".toList

theorem exists_tail (s : Statement) : ∃ tail, statementText s = beginning s ++ tail := by
  cases s with
  | column c => exact ⟨_, (List.nil_append _).symm⟩
  | dropColumn name =>
    refine ⟨SingleQuoted.encodeChars name.toList ++ '\'' :: ");".toList, ?_⟩
    rw [statementText_dropColumn, quoted_append]
    dsimp only [beginning]
    simp
  | dropForeign columns =>
    cases columns with
    | nil => exact ⟨"]);".toList, by decide⟩
    | cons column columns =>
      refine ⟨quoted column ++ (namesText columns ++ "]);".toList), ?_⟩
      apply (toList_dropForeign_cons column columns).trans
      dsimp only [beginning]
      simp
  | foreign key =>
    refine ⟨SingleQuoted.encodeChars key.column.toList ++ '\'' ::
      (")->references(".toList ++ (quoted key.references
        ++ (")->on(".toList ++ (quoted key.on ++ ");".toList)))), ?_⟩
    apply (toList_foreign key).trans
    rw [quoted_append]
    dsimp only [beginning]
    simp
  | connection c =>
    refine ⟨quoted c.connection ++ (")".toList ++ callTail c), ?_⟩
    exact toList_call c

theorem column_ne_statement {c : ColumnCall} (hc : c.Legible) {s : Statement}
    (hs : ∀ c, s ≠ .column c) {rest rest' : List Char} :
    (column c).toList ++ rest ≠ statementText s ++ rest' := by
  obtain ⟨tail, htail⟩ := exists_tail s
  rw [htail]
  cases s with
  | column c => exact absurd rfl (hs c)
  | dropColumn name =>
    dsimp only [beginning]
    simp only [List.append_assoc]
    exact column_ne hc (by simp) (by simp)
  | dropForeign columns =>
    dsimp only [beginning]
    simp only [List.append_assoc]
    exact column_ne hc (by simp) (by simp)
  | foreign key =>
    dsimp only [beginning]
    simp only [List.append_assoc]
    exact column_ne hc (by simp) (by simp)
  | connection call =>
    intro h
    obtain ⟨name, args, hargs⟩ := hc.args
    rw [toList_column hargs] at h
    dsimp only [beginning] at h
    simp at h

theorem statement_cancel {s s' : Statement} (hs : s.Legible) (hs' : s'.Legible)
    {rest rest' : List Char} (h : statementText s ++ rest = statementText s' ++ rest') :
    s = s' ∧ rest = rest' := by
  obtain ⟨tail, htail⟩ := exists_tail s
  obtain ⟨tail', htail'⟩ := exists_tail s'
  cases s <;> cases s'
  case column.column =>
    obtain ⟨rfl, hrest⟩ := column_cancel hs hs' h
    exact ⟨rfl, hrest⟩
  case dropColumn.dropColumn =>
    obtain ⟨rfl, hrest⟩ := dropColumn_cancel h
    exact ⟨rfl, hrest⟩
  case dropForeign.dropForeign =>
    obtain ⟨rfl, hrest⟩ := dropForeign_cancel h
    exact ⟨rfl, hrest⟩
  case foreign.foreign =>
    obtain ⟨rfl, hrest⟩ := foreign_cancel h
    exact ⟨rfl, hrest⟩
  case connection.connection =>
    obtain ⟨rfl, hrest⟩ := call_cancel h
    exact ⟨rfl, hrest⟩
  case column.dropColumn | column.dropForeign | column.foreign | column.connection =>
    exact absurd h (column_ne_statement hs (by simp))
  case dropColumn.column | dropForeign.column | foreign.column | connection.column =>
    exact absurd h.symm (column_ne_statement hs' (by simp))
  all_goals
    rw [htail, htail'] at h
    dsimp only [beginning] at h
    simp at h

def lineText (l : Line) : List Char :=
  (l.write .schemaBuilder Dialect.schemaBuilder.unit 2).toList ++ ['\n']

def content : Line → List Char
  | .blank => []
  | .create connection table => schemaText connection (openTail "create" table)
  | .alter connection table => schemaText connection (openTail "table" table)
  | .statement s => "    ".toList ++ statementText s
  | .close => "\x7d);".toList
  | .call c => schemaText c.connection (callTail c)
  | .comment text => "// ".toList ++ text.toList

theorem toList_indentation_append (text : String) :
    (Writer.indentation Dialect.schemaBuilder.unit 2 ++ text).toList =
      "        ".toList ++ text.toList := by
  have hindentation : Writer.indentation Dialect.schemaBuilder.unit 2 = "        " := by decide
  rw [hindentation, String.toList_append]

theorem lineText_of_ne_blank {l : Line} (h : l ≠ .blank) :
    lineText l = "        ".toList ++ (content l ++ ['\n']) := by
  unfold lineText
  rw [← List.append_assoc, List.append_left_inj]
  cases l with
  | blank => contradiction
  | create connection table =>
    dsimp only [Line.write, content]
    rw [← toList_openTable]
    exact toList_indentation_append _
  | alter connection table =>
    dsimp only [Line.write, content]
    rw [← toList_openTable]
    exact toList_indentation_append _
  | statement s =>
    dsimp only [Line.write, content]
    have hindentation : Writer.indentation Dialect.schemaBuilder.unit (2 + 1) =
        Writer.indentation Dialect.schemaBuilder.unit 2 ++ "    " := by decide
    rw [hindentation, String.append_assoc, toList_indentation_append, String.toList_append]
    rfl
  | close => exact toList_indentation_append _
  | call c =>
    dsimp only [Line.write, content]
    rw [← toList_call]
    exact toList_indentation_append _
  | comment text =>
    dsimp only [Line.write, content]
    rw [← String.toList_append]
    exact toList_indentation_append _

def mark : Line → Char
  | .blank => '\n'
  | .create _ _ => 'S'
  | .alter _ _ => 'S'
  | .statement _ => ' '
  | .close => '\x7d'
  | .call _ => 'S'
  | .comment _ => '/'

theorem content_eq_mark_cons {l : Line} (h : l ≠ .blank) : ∃ tail, content l = mark l :: tail := by
  cases l with
  | blank => contradiction
  | create connection table => exact ⟨_, rfl⟩
  | alter connection table => exact ⟨_, rfl⟩
  | statement s => exact ⟨_, rfl⟩
  | close => exact ⟨_, rfl⟩
  | call c => exact ⟨_, rfl⟩
  | comment text => exact ⟨_, rfl⟩

theorem open_ne_callTail {method table : String} (hmethod : method = "create" ∨ method = "table")
    {c : ConnectionCall} {rest rest' : List Char} :
    openTail method table ++ rest ≠ callTail c ++ rest' := by
  intro h
  cases hmethod with
  | inl hmethod =>
    rw [hmethod] at h
    cases c <;> dsimp only [openTail, callTail] at h <;> simp at h
  | inr hmethod =>
    rw [hmethod] at h
    cases c <;> dsimp only [openTail, callTail] at h <;> simp at h

theorem create_ne_alter {table table' : String} {rest rest' : List Char} :
    openTail "create" table ++ rest ≠ openTail "table" table' ++ rest' := by
  intro h
  dsimp only [openTail] at h
  simp at h

theorem content_cancel {l l' : Line} (hl : l.Legible) (hl' : l'.Legible) (hne : l ≠ .blank)
    (hne' : l' ≠ .blank) {rest rest' : List Char}
    (h : content l ++ '\n' :: rest = content l' ++ '\n' :: rest') : l = l' ∧ rest = rest' := by
  have hmark : mark l = mark l' := by
    obtain ⟨tail, htail⟩ := content_eq_mark_cons hne
    obtain ⟨tail', htail'⟩ := content_eq_mark_cons hne'
    rw [htail, htail', List.cons_append, List.cons_append, List.cons.injEq] at h
    exact h.1
  cases l <;> cases l' <;> try contradiction
  case create.create =>
    obtain ⟨rfl, htail⟩ := schema_cancel h
    obtain ⟨rfl, hrest⟩ := openTail_cancel htail
    exact ⟨rfl, List.tail_eq_of_cons_eq hrest⟩
  case alter.alter =>
    obtain ⟨rfl, htail⟩ := schema_cancel h
    obtain ⟨rfl, hrest⟩ := openTail_cancel htail
    exact ⟨rfl, List.tail_eq_of_cons_eq hrest⟩
  case call.call =>
    obtain ⟨hconnection, htail⟩ := schema_cancel h
    obtain ⟨rfl, hrest⟩ := callTail_cancel hconnection htail
    exact ⟨rfl, List.tail_eq_of_cons_eq hrest⟩
  case create.alter => exact absurd (schema_cancel h).2 create_ne_alter
  case alter.create => exact absurd (schema_cancel h).2.symm create_ne_alter
  case create.call => exact absurd (schema_cancel h).2 (open_ne_callTail (by simp))
  case alter.call => exact absurd (schema_cancel h).2 (open_ne_callTail (by simp))
  case call.create => exact absurd (schema_cancel h).2.symm (open_ne_callTail (by simp))
  case call.alter => exact absurd (schema_cancel h).2.symm (open_ne_callTail (by simp))
  case statement.statement =>
    dsimp only [content] at h
    rw [List.append_assoc, List.append_assoc] at h
    obtain ⟨rfl, hrest⟩ := statement_cancel hl hl' (List.append_cancel_left h)
    exact ⟨rfl, List.tail_eq_of_cons_eq hrest⟩
  case close.close => exact ⟨rfl, List.tail_eq_of_cons_eq (List.append_cancel_left h)⟩
  case comment.comment =>
    dsimp only [content] at h
    rw [List.append_assoc, List.append_assoc] at h
    obtain ⟨htext, hrest⟩ := until_cancel hl hl' (List.append_cancel_left h)
    rw [String.toList_inj] at htext
    exact ⟨congrArg _ htext, hrest⟩
  all_goals simp [mark] at hmark

theorem line_cancel {l l' : Line} (hl : l.Legible) (hl' : l'.Legible) {rest rest' : List Char}
    (h : lineText l ++ rest = lineText l' ++ rest') : l = l' ∧ rest = rest' := by
  have hblank : lineText .blank = ['\n'] := rfl
  by_cases hne : l = .blank
  . subst hne
    by_cases hne' : l' = .blank
    . subst hne'
      exact ⟨rfl, List.append_cancel_left h⟩
    . rw [hblank, lineText_of_ne_blank hne'] at h
      simp at h
  . by_cases hne' : l' = .blank
    . subst hne'
      rw [hblank, lineText_of_ne_blank hne] at h
      simp at h
    . rw [lineText_of_ne_blank hne, lineText_of_ne_blank hne'] at h
      simp only [List.append_assoc] at h
      exact content_cancel hl hl' hne hne' (List.append_cancel_left h)

end SchemaBuilder

end SchemaMigration
