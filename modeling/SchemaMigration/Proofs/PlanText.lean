import SchemaMigration.Proofs.Compile
import SchemaMigration.Proofs.Json.Composite

/-!
This module contains the round trip of plans: a written plan, compact or pretty, is read as itself.
It does not matter whether the plan has been compiled. Every part has one lemma, and each builds on
those of the parts it is made of.
-/

namespace SchemaMigration

open Json

def Argument.values : Argument → List Json
  | .none => []
  | .literal value => [value]
  | .raw _ => []

def ColumnCall.values (c : ColumnCall) : List Json :=
  c.args ++ c.modifiers.flatMap (·.arg.values)

def Statement.values : Statement → List Json
  | .column call => call.values
  | _ => []

def Group.values : Group → List Json
  | .createTable block => block.statements.flatMap Statement.values
  | .alterTable block => block.statements.flatMap Statement.values
  | .calls _ => []
  | .comment _ => []

def Plan.values (p : Plan) : List Json := p.groups.flatMap Group.values

theorem Argument.readsBack {arg : Argument} (h : ∀ v ∈ arg.values, v.Exact) :
    ReadsBack (Variant.read variants) arg.toJson arg := by
  cases arg with
  | none => exact Variant.readsBack_name rfl
  | literal value =>
    have hvalue := ReadsBack.exact (h value (by simp [values]))
    exact Variant.readsBack_tagged rfl (hvalue.map _)
  | raw expression => exact Variant.readsBack_tagged rfl ((ReadsBack.string expression).map _)

theorem Modifier.readsBack {m : Modifier} (h : ∀ v ∈ m.arg.values, v.Exact) :
    ReadsBack record.read m.toJson m := by
  apply Record.readsBack
  . decide
  . apply Record.Filled.mandatory (ReadsBack.string m.method)
    apply Record.Filled.mandatory (Argument.readsBack h)
    exact .nil

theorem ColumnCall.readsBack {c : ColumnCall} (h : ∀ v ∈ c.values, v.Exact) :
    ReadsBack record.read c.toJson c := by
  have hargs : ReadsBack (Reader.list Reader.value) (.array c.args) c.args := by
    apply ReadsBack.list
    rw [List.forall₂_same]
    intro v hv
    apply ReadsBack.exact
    apply h
    simp [values, hv]
  have hmodifiers : ReadsBack (Reader.list Modifier.record.read)
      (jsonList Modifier.toJson c.modifiers) c.modifiers := by
    apply ReadsBack.jsonList
    intro m hm
    apply Modifier.readsBack
    intro v hv
    apply h
    unfold values
    rw [List.mem_append, List.mem_flatMap]
    exact .inr ⟨m, hm, hv⟩
  apply Record.readsBack
  . decide
  . apply Record.Filled.mandatory (ReadsBack.string c.type)
    apply Record.Filled.mandatory hargs
    apply Record.Filled.mandatory hmodifiers
    apply Record.Filled.mandatory (ReadsBack.bool c.change)
    exact .nil

theorem ConnectionCall.readsBack (call : ConnectionCall) :
    ReadsBack (Variant.read variants) call.toJson call := by
  cases call with
  | disableForeignKeys connection =>
    have hrecord : ReadsBack (connectionRecord "DisableForeignKeyConstraints").read
        (.object [("connection", .string connection)]) connection := by
      apply Record.readsBack
      . decide
      . exact .mandatory (ReadsBack.string connection) .nil
    exact Variant.readsBack_tagged rfl (hrecord.map _)
  | enableForeignKeys connection =>
    have hrecord : ReadsBack (connectionRecord "EnableForeignKeyConstraints").read
        (.object [("connection", .string connection)]) connection := by
      apply Record.readsBack
      . decide
      . exact .mandatory (ReadsBack.string connection) .nil
    exact Variant.readsBack_tagged rfl (hrecord.map _)
  | dropTable connection table =>
    have hrecord : ReadsBack (tableRecord "DropTable").read
        (.object [("connection", .string connection), ("table", .string table)])
          (connection, table) := by
      apply Record.readsBack
      . decide
      . exact .mandatory (ReadsBack.string connection) (.mandatory (ReadsBack.string table) .nil)
    have hcall := hrecord.map fun call => ConnectionCall.dropTable call.1 call.2
    exact Variant.readsBack_tagged rfl hcall

theorem ForeignKey.readsBack (key : ForeignKey) : ReadsBack record.read key.toJson key := by
  apply Record.readsBack
  . decide
  . apply Record.Filled.mandatory (ReadsBack.string key.column)
    apply Record.Filled.mandatory (ReadsBack.string key.references)
    apply Record.Filled.mandatory (ReadsBack.string key.on)
    exact .nil

theorem Statement.readsBack {s : Statement} (h : ∀ v ∈ s.values, v.Exact) :
    ReadsBack (Variant.read variants) s.toJson s := by
  cases s with
  | column call => exact Variant.readsBack_tagged rfl ((ColumnCall.readsBack h).map _)
  | dropColumn name =>
    have hrecord : ReadsBack nameRecord.read (.object [("name", .string name)]) name := by
      apply Record.readsBack
      . decide
      . exact .mandatory (ReadsBack.string name) .nil
    exact Variant.readsBack_tagged rfl (hrecord.map _)
  | dropForeign columns =>
    have hcolumns : ReadsBack (Reader.list Reader.string) (jsonList .string columns) columns := by
      apply ReadsBack.jsonList
      intro column _
      exact ReadsBack.string column
    have hrecord : ReadsBack columnsRecord.read
        (.object [("columns", jsonList .string columns)]) columns := by
      apply Record.readsBack
      . decide
      . exact .mandatory hcolumns .nil
    exact Variant.readsBack_tagged rfl (hrecord.map _)
  | foreign key => exact Variant.readsBack_tagged rfl ((ForeignKey.readsBack key).map _)
  | connection call => exact Variant.readsBack_tagged rfl ((ConnectionCall.readsBack call).map _)

theorem Block.readsBack {b : Block} (h : ∀ v ∈ b.statements.flatMap Statement.values, v.Exact)
    (variant : String) : ReadsBack (record variant).read b.toJson b := by
  have hstatements : ReadsBack (Reader.list (Variant.read Statement.variants))
      (jsonList Statement.toJson b.statements) b.statements := by
    apply ReadsBack.jsonList
    intro s hs
    apply Statement.readsBack
    intro v hv
    apply h
    rw [List.mem_flatMap]
    exact ⟨s, hs, hv⟩
  have hkeys : (record variant).fields.map (·.key) = ["connection", "table", "statements"] := rfl
  apply Record.readsBack
  . rw [hkeys]
    decide
  . apply Record.Filled.mandatory (ReadsBack.string b.connection)
    apply Record.Filled.mandatory (ReadsBack.string b.table)
    apply Record.Filled.mandatory hstatements
    exact .nil

theorem Group.readsBack {g : Group} (h : ∀ v ∈ g.values, v.Exact) :
    ReadsBack (Variant.read variants) g.toJson g := by
  cases g with
  | createTable block =>
    exact Variant.readsBack_tagged rfl ((Block.readsBack h "CreateTable").map _)
  | alterTable block => exact Variant.readsBack_tagged rfl ((Block.readsBack h "AlterTable").map _)
  | calls list =>
    have hlist : ReadsBack (Reader.list (Variant.read ConnectionCall.variants))
        (jsonList ConnectionCall.toJson list) list := by
      apply ReadsBack.jsonList
      intro call _
      exact ConnectionCall.readsBack call
    exact Variant.readsBack_tagged rfl (hlist.map _)
  | comment text => exact Variant.readsBack_tagged rfl ((ReadsBack.string text).map _)

theorem PassKind.readsBack (kind : PassKind) :
    ReadsBack (Variant.read variants) (.string kind.name) kind := by
  apply Variant.readsBack_name
  cases kind <;> rfl

theorem Pass.readsBack {p : Pass} (h : ∀ v ∈ p.groups.flatMap Group.values, v.Exact) :
    ReadsBack record.read p.toJson p := by
  have hgroups : ReadsBack (Reader.list (Variant.read Group.variants))
      (jsonList Group.toJson p.groups) p.groups := by
    apply ReadsBack.jsonList
    intro g hg
    apply Group.readsBack
    intro v hv
    apply h
    rw [List.mem_flatMap]
    exact ⟨g, hg, hv⟩
  apply Record.readsBack
  . decide
  . apply Record.Filled.mandatory (PassKind.readsBack p.kind)
    apply Record.Filled.mandatory hgroups
    exact .nil

theorem Plan.readsBack {p : Plan} (h : ∀ v ∈ p.values, v.Exact) :
    ReadsBack record.read p.toJson p := by
  have hpasses : ReadsBack (Reader.list Pass.record.read) (jsonList Pass.toJson p.passes)
      p.passes := by
    apply ReadsBack.jsonList
    intro pass hpass
    apply Pass.readsBack
    intro v hv
    rw [List.mem_flatMap] at hv
    obtain ⟨g, hg, hv⟩ := hv
    apply h
    unfold values groups
    rw [List.mem_flatMap]
    exact ⟨g, List.mem_flatMap.mpr ⟨pass, hpass, hg⟩, hv⟩
  apply Record.readsBack
  . decide
  . exact .mandatory hpasses .nil

/--
A plan is read from its compact text, from its pretty text, and from what the tool prints for it, as
long as its values have no floating-point numbers and are not nested too deeply for a document.
-/
theorem Plan.document_toJson {p : Plan} (hvalues : ∀ v ∈ p.values, v.Exact)
    (hheight : p.toJson.height ≤ maxDepth) :
    Reader.document record.read p.toJson.compact = .ok p
      ∧ Reader.document record.read p.toJson.pretty = .ok p
      ∧ Reader.document record.read (p.toJson.pretty ++ "\n") = .ok p := by
  have hreads := Plan.readsBack hvalues
  refine ⟨?_, ?_, ?_⟩
  . have hcompact := hreads.document Style.blank_compact hheight [] rfl
    rwa [List.append_nil] at hcompact
  . have hpretty := hreads.document Style.blank_pretty hheight [] rfl
    rwa [List.append_nil] at hpretty
  . have hprinted := hreads.document Style.blank_pretty hheight ['\n'] rfl
    rwa [String.ofList_append] at hprinted

-- A plan that tells a modifier without a value from one whose value is `null`.
def titlePlan : Plan := ⟨[⟨.createdTables, [.createTable ⟨"main", "posts", [
  .column ⟨"string", [.string "title", .number (.integer 40)],
    [⟨"default", .literal .null⟩, ⟨"useCurrent", .none⟩], false⟩]⟩]⟩]⟩

theorem titlePlan_exact : ∀ v ∈ titlePlan.values, v.Exact := by
  have hvalues : titlePlan.values = [.string "title", .number (.integer 40), .null] := rfl
  rw [hvalues]
  simp only [List.forall_mem_cons, List.not_mem_nil, false_imp_iff, implies_true, and_true]
  refine ⟨⟨.string _, .string _⟩, ⟨.number ?_, .integer _⟩, ⟨.null, .null⟩⟩
  simp [Number.InRange]

theorem titlePlan_document_toJson :
    Reader.document Plan.record.read titlePlan.toJson.compact = .ok titlePlan
      ∧ Reader.document Plan.record.read titlePlan.toJson.pretty = .ok titlePlan
      ∧ Reader.document Plan.record.read (titlePlan.toJson.pretty ++ "\n") = .ok titlePlan :=
  Plan.document_toJson titlePlan_exact (by decide)

end SchemaMigration
