import SchemaMigration.Command.Run
import SchemaMigration.Proofs.Compile
import SchemaMigration.Proofs.Outcome

/-!
This module contains how the subcommands of the command line tool agree. They load the same files
and compile them in different orders, and they succeed on the same arguments: a check just if the
script can be generated, a plan just if the check of the same change set goes well. Nothing is
printed but by a command that succeeds.
-/

namespace SchemaMigration.Command

open Json

structure MainOptions where
  models : Option String
  allowAmbiguousDefaults : Bool
  verbose : Bool

def MainOptions.args (o : MainOptions) : List String :=
  (match o.models with
    | some path => ["--models", path]
    | none => []) ++
  (if o.allowAmbiguousDefaults then ["--allow-ambiguous-defaults"] else []) ++
  (if o.verbose then ["--verbose"] else [])

def downArgs : Option String → List String
  | some down => ["--down", down]
  | none => []

def generateArgs (name up : String) (down : Option String) : List String :=
  "generate" :: "--name" :: name :: "--up" :: up :: downArgs down

def planArgs (up : String) : List String := ["plan", "--up", up]

def checkArgs (up : String) (down : Option String) : List String :=
  "check" :: "--up" :: up :: downArgs down

namespace Arguments

def isValue (arg : String) : Bool := arg.toList == ['-'] || arg.toList.head? != some '-'

def isPath (arg : String) : Bool := isValue arg && arg != ""

def Opt.accepts (o : Opt) (arg : String) : Bool :=
  isValue arg && (o.kind != .path || arg != "")

theorem readOptions_awaits {options : List Opt} {given : Given} {o : Opt} {value : String}
    {args : List String} :
    readOptions options given (some o) (value :: args) =
      if isValue value then do readOptions options (← give given o value) none args
      else .error .usage := by
  unfold isValue
  rw [readOptions.eq_def]
  dsimp only
  cases htext : value.toList with
  | nil => rfl
  | cons c text =>
    by_cases hdash : c = '-'
    . rw [hdash]
      cases text with
      | nil => rfl
      | cons c' text => simp
    . simp [hdash]

theorem readOptions_value (options : List Opt) (given : Given) (o : Opt) (arg value : String)
    (args : List String)
    (harg : readOptions options given none (arg :: value :: args) =
      readOptions options given (some o) (value :: args))
    (hnew : given.lookup o.name = none) :
    readOptions options given none (arg :: value :: args) =
      if o.accepts value then readOptions options ((o.name, value) :: given) none args
      else .error .usage := by
  rw [harg, readOptions_awaits]
  unfold Opt.accepts give
  cases isValue value with
  | false => rfl
  | true =>
    by_cases hempty : o.kind = .path ∧ value = ""
    . simp [hnew, hempty, bind, Except.bind]
    . have hnot : (o.kind != .path || value != "") = true := by
        simpa [imp_iff_not_or] using hempty
      simp [hnew, hempty, hnot, bind, Except.bind]

theorem readSubcommand_cons {name : String} {options : List Opt} {args : List String}
    (h : subcommandOptions name = some options) :
    readSubcommand (name :: args) = (do
      let (given, rest) ← readOptions options [] none args
      if rest.isEmpty then subcommand name given else .error .usage) := by
  unfold readSubcommand
  dsimp only
  rw [h]

section

variable (up : String) (down : Option String)

theorem readSubcommand_plan :
    readSubcommand (planArgs up) = if isPath up then .ok (.plan up) else .error .usage := by
  unfold planArgs
  rw [readSubcommand_cons (show subcommandOptions "plan" = some [⟨"up", none, .path⟩] from rfl)]
  rw [readOptions_value _ _ ⟨"up", none, .path⟩ _ _ _ rfl rfl]
  have haccepts : Opt.accepts ⟨"up", none, .path⟩ up = isPath up := rfl
  rw [haccepts]
  cases isPath up <;> rfl

theorem readOptions_changes (options : List Opt) (given : Given)
    (hup : readOptions options given none ("--up" :: up :: downArgs down) =
      readOptions options given (some ⟨"up", none, .path⟩) (up :: downArgs down))
    (hdown : ∀ path, readOptions options (("up", up) :: given) none ["--down", path] =
      readOptions options (("up", up) :: given) (some ⟨"down", none, .path⟩) [path])
    (hnew : given.lookup "up" = none) (hnew' : given.lookup "down" = none) :
    readOptions options given none ("--up" :: up :: downArgs down) =
      if isPath up && down.all isPath then
        .ok ((down.toList.map fun path => ("down", path)) ++ ("up", up) :: given, [])
      else .error .usage := by
  rw [readOptions_value _ _ ⟨"up", none, .path⟩ _ _ _ hup hnew]
  show (if isPath up then _ else _) = _
  cases isPath up with
  | false => rfl
  | true =>
    cases down with
    | none => rfl
    | some path =>
      dsimp only [downArgs]
      rw [readOptions_value _ _ ⟨"down", none, .path⟩ _ _ _ (hdown path) hnew']
      show (if isPath path then _ else _) = if isPath path then _ else _
      cases isPath path <;> rfl

theorem readSubcommand_check :
    readSubcommand (checkArgs up down) =
      if isPath up && down.all isPath then .ok (.check up down) else .error .usage := by
  unfold checkArgs
  rw [readSubcommand_cons (show subcommandOptions "check" = some [⟨"up", none, .path⟩,
    ⟨"down", none, .path⟩] from rfl)]
  rw [readOptions_changes up down _ _ rfl (fun _ => rfl) rfl rfl]
  cases isPath up && down.all isPath with
  | false => rfl
  | true => cases down <;> rfl

theorem readSubcommand_generate {name : String} (hname : isValue name = true) :
    readSubcommand (generateArgs name up down) =
      if isPath up && down.all isPath then .ok (.generate name up down) else .error .usage := by
  unfold generateArgs
  rw [readSubcommand_cons (show subcommandOptions "generate" = some [⟨"name", some 'n', .text⟩,
    ⟨"up", none, .path⟩, ⟨"down", none, .path⟩] from rfl)]
  rw [readOptions_value _ _ ⟨"name", some 'n', .text⟩ _ _ _ rfl rfl]
  have haccepts : Opt.accepts ⟨"name", some 'n', .text⟩ name = true := by
    simp [Opt.accepts, hname]
  rw [if_pos haccepts]
  rw [readOptions_changes up down _ _ rfl (fun _ => rfl) rfl rfl]
  cases isPath up && down.all isPath with
  | false => rfl
  | true => cases down <;> rfl

end

end Arguments

namespace MainOptions

open Arguments

variable (env : String → Option String) (o : MainOptions)

def modelsPath : Option String :=
  o.models.or (env "BLUEPRINT_MODELS")

def options : Options :=
  ⟨o.allowAmbiguousDefaults || env "BLUEPRINT_ALLOW_AMBIGUOUS_DEFAULTS" == some "true"⟩

def isAccepted : Bool :=
  o.models.all isPath && (o.models.isSome || env "BLUEPRINT_MODELS" != some "") &&
    (o.allowAmbiguousDefaults ||
      [none, some "true", some "false"].contains (env "BLUEPRINT_ALLOW_AMBIGUOUS_DEFAULTS"))

def invocation (s : Subcommand) : Invocation where
  models := o.modelsPath env
  allowAmbiguousDefaults := (o.options env).allowAmbiguousDefaults
  verbose := o.verbose
  subcommand := s

def given : Given :=
  (if o.verbose then [("verbose", "")] else []) ++
    (if o.allowAmbiguousDefaults then [("allow-ambiguous-defaults", "")] else []) ++
    o.models.toList.map fun path => ("models", path)

variable {command : String} {args : List String}

theorem readOptions_args (hcommand : ∀ given,
    readOptions mainOptions given none (command :: args) = .ok (given, command :: args)) :
    readOptions mainOptions [] none (o.args ++ command :: args) =
      if o.models.all isPath then .ok (o.given, command :: args) else .error .usage := by
  obtain ⟨models, allow, verbose⟩ := o
  cases models with
  | none => cases allow <;> cases verbose <;> exact hcommand _
  | some path =>
    refine (readOptions_value _ _ ⟨"models", some 'm', .path⟩ _ _ _ rfl rfl).trans ?_
    show (if isPath path then _ else _) = if isPath path then _ else _
    cases isPath path with
    | false => rfl
    | true => cases allow <;> cases verbose <;> exact hcommand _

theorem models_given : Arguments.models env o.given =
    if o.models.isSome || env "BLUEPRINT_MODELS" != some "" then .ok (o.modelsPath env)
    else .error .usage := by
  have hlookup : o.given.lookup "models" = o.models := by
    obtain ⟨models, allow, verbose⟩ := o
    cases models <;> cases allow <;> cases verbose <;> rfl
  unfold Arguments.models modelsPath
  rw [hlookup]
  cases o.models with
  | some path => rfl
  | none =>
    generalize env "BLUEPRINT_MODELS" = models
    by_cases hempty : models = some ""
    . rw [hempty]
      rfl
    . cases models <;> simp_all

theorem allowAmbiguousDefaults_given : Arguments.allowAmbiguousDefaults env o.given =
    if o.allowAmbiguousDefaults ||
      [none, some "true", some "false"].contains (env "BLUEPRINT_ALLOW_AMBIGUOUS_DEFAULTS") then
      .ok (o.options env).allowAmbiguousDefaults
    else .error .usage := by
  have hlookup : o.given.lookup "allow-ambiguous-defaults" =
      if o.allowAmbiguousDefaults then some "" else none := by
    obtain ⟨models, allow, verbose⟩ := o
    cases models <;> cases allow <;> cases verbose <;> rfl
  unfold Arguments.allowAmbiguousDefaults options
  rw [hlookup]
  cases o.allowAmbiguousDefaults with
  | true => rfl
  | false =>
    generalize env "BLUEPRINT_ALLOW_AMBIGUOUS_DEFAULTS" = allow
    by_cases hknown : allow ∈ [none, some "true", some "false"]
    . simp only [List.mem_cons, List.not_mem_nil, or_false] at hknown
      obtain hnone | htrue | hfalse := hknown
      . rw [hnone]
        rfl
      . rw [htrue]
        rfl
      . rw [hfalse]
        rfl
    . simp only [List.mem_cons, List.not_mem_nil, or_false, not_or] at hknown
      obtain ⟨hnone, htrue, hfalse⟩ := hknown
      cases allow <;> simp_all

theorem readInvocation_args {s : Subcommand} {p : Bool} (hcommand : ∀ given,
    readOptions mainOptions given none (command :: args) = .ok (given, command :: args))
    (hread : readSubcommand (command :: args) = if p then .ok s else .error .usage) :
    readInvocation env (o.args ++ command :: args) =
      if o.isAccepted env && p then .ok (o.invocation env s) else .error .usage := by
  have hverbose : (o.given.lookup "verbose").isSome = o.verbose := by
    obtain ⟨models, allow, verbose⟩ := o
    cases models <;> cases allow <;> cases verbose <;> rfl
  unfold readInvocation isAccepted
  rw [readOptions_args o hcommand]
  cases o.models.all isPath with
  | false => rfl
  | true =>
    rw [if_pos rfl]
    dsimp only [bind, Except.bind]
    rw [hread, models_given, allowAmbiguousDefaults_given, hverbose, Bool.true_and]
    cases p with
    | false =>
      rw [Bool.and_false]
      rfl
    | true =>
      rw [Bool.and_true]
      cases o.models.isSome || env "BLUEPRINT_MODELS" != some "" with
      | false => rfl
      | true =>
        rw [if_pos rfl, if_pos rfl, Bool.true_and]
        generalize env "BLUEPRINT_ALLOW_AMBIGUOUS_DEFAULTS" = allow
        cases o.allowAmbiguousDefaults || [none, some "true", some "false"].contains allow <;> rfl

theorem request?_args {s : Subcommand} {p : Bool} (hcommand : ∀ given,
    readOptions mainOptions given none (command :: args) = .ok (given, command :: args))
    (hread : readSubcommand (command :: args) = if p then .ok s else .error .usage) :
    request? env (o.args ++ command :: args) =
      if o.isAccepted env && p then some (.run (o.invocation env s)) else none := by
  unfold request?
  rw [readInvocation_args env o hcommand hread]
  cases o.isAccepted env && p <;> rfl

end MainOptions

def Files.Holds (files : Files) (read : Reader α) (path : String) (a : α) : Prop :=
  ∃ bytes text, files path = .ok bytes ∧ String.fromUTF8? bytes = some text ∧
    Reader.document read text = .ok a

def Files.HoldsOr (files : Files) (default : α) (read : Reader α) : Option String → α → Prop
  | some path, a => files.Holds read path a
  | none, a => a = default

theorem fromUTF8?_toUTF8 (text : String) :
    String.fromUTF8? text.toUTF8 = some text := by
  unfold String.fromUTF8?
  split
  . rfl
  . next hinvalid => exact absurd text.isValidUTF8 hinvalid

theorem load_eq_ok_iff {files : Files} {read : Reader α} {unreadable : Json.Error → Error}
    {path : String} {a : α} :
    load files read unreadable path = .ok a ↔ files.Holds read path a := by
  unfold load Files.text Files.Holds
  cases files path with
  | error fault => simp [bind, Except.bind, Except.mapError]
  | ok bytes =>
    cases htext : String.fromUTF8? bytes with
    | none => simp [bind, Except.bind, Except.mapError, htext]
    | some text =>
      cases hread : Reader.document read text <;>
        simp [bind, Except.bind, Except.mapError, htext, hread]

namespace Work

variable {files : Files} {a : α}

@[simp]
theorem result_bind (w : Work α) (next : α → Work β) :
    (w >>= next).result = w.result >>= fun a => (next a).result := by
  show (w.andThen next).result = _
  unfold andThen
  cases w.result <;> rfl

@[simp]
theorem result_pure (a : α) : (pure a : Work α).result = .ok a := rfl

@[simp]
theorem result_log (events : List Event) : (log events).result = .ok () := rfl

theorem ofExcept_result_eq_ok_iff {context : Option String} {result : Except Error α} :
    (ofExcept context result).result = .ok a ↔ result = .ok a := by
  cases result <;> simp [ofExcept, Except.mapError]

theorem outcome_iff {verbose : Bool} {w : Work String} {output : String} :
    (w.outcome verbose).status = 0 ∧ (w.outcome verbose).stdout = output ↔
      w.result = .ok output := by
  unfold outcome
  cases w.result <;> simp

end Work

variable {files : Files}

theorem readChangeSet_eq_ok_iff {path : String} {cs : ChangeSet} :
    (readChangeSet files path).result = .ok cs ↔ files.Holds ChangeSet.record.read path cs := by
  unfold readChangeSet
  rw [Work.ofExcept_result_eq_ok_iff, load_eq_ok_iff]

theorem readChangeSet?_eq_ok_iff {path : Option String} {cs : ChangeSet} :
    (readChangeSet? files path).result = .ok cs ↔
      files.HoldsOr .empty ChangeSet.record.read path cs := by
  cases path with
  | none =>
    show Except.ok ChangeSet.empty = .ok cs ↔ cs = .empty
    rw [Except.ok.injEq, eq_comm]
  | some path => exact readChangeSet_eq_ok_iff

theorem readRegistry_eq_ok_iff {path : Option String} {registry : Registry} :
    (readRegistry files path).result = .ok registry ↔
      files.HoldsOr .empty Registry.reader path registry := by
  cases path with
  | none =>
    show Except.ok Registry.empty = .ok registry ↔ registry = .empty
    rw [Except.ok.injEq, eq_comm]
  | some path =>
    unfold readRegistry
    simp [bind_eq_ok_iff, Work.ofExcept_result_eq_ok_iff, load_eq_ok_iff, Files.HoldsOr]

theorem compile_result_eq_ok_iff {registry : Registry} {options : Options} {cs : ChangeSet}
    {plan : Plan} :
    (compile registry options cs).result = .ok plan ↔ cs.compile registry options = .ok plan := by
  unfold compile
  simp [bind_eq_ok_iff, Work.ofExcept_result_eq_ok_iff]

theorem assemble_result_eq_ok_iff {registry : Registry} {options : Options} {name : String}
    {up down : ChangeSet} {script : Script} :
    (assemble registry options name up down).result = .ok script ↔
      Script.assemble registry options name up down = .ok script := by
  unfold assemble
  simp [bind_eq_ok_iff, Work.ofExcept_result_eq_ok_iff]

theorem exists_assemble_iff {registry : Registry} {options : Options} {name : String}
    {up down : ChangeSet} (hname : Script.isName name = true) :
    (∃ script, Script.assemble registry options name up down = .ok script) ↔
      (∃ plan, up.compile registry options = .ok plan) ∧
      ∃ plan, down.compile registry options = .ok plan := by
  unfold Script.assemble Script.assembleWith Script.checkName ChangeSet.compile
  simp [hname, bind_eq_ok_iff]

def CanMigrate (files : Files) (registry : Registry) (options : Options) (up : String)
    (down : Option String) : Prop :=
  ∃ upChanges downChanges, files.Holds ChangeSet.record.read up upChanges ∧
    files.HoldsOr .empty ChangeSet.record.read down downChanges ∧
    (∃ plan, upChanges.compile registry options = .ok plan) ∧
    ∃ plan, downChanges.compile registry options = .ok plan

section

variable {registry : Registry} {options : Options} {name up : String} {down : Option String}

theorem execute_generate_eq_ok_iff {output : String} :
    (execute files registry options (.generate name up down)).result = .ok output ↔
      ∃ upChanges downChanges script, files.Holds ChangeSet.record.read up upChanges ∧
        files.HoldsOr .empty ChangeSet.record.read down downChanges ∧
        Script.assemble registry options name upChanges downChanges = .ok script ∧
        script.render .schemaBuilder = output := by
  unfold execute
  simp [bind_eq_ok_iff, readChangeSet_eq_ok_iff, readChangeSet?_eq_ok_iff,
    assemble_result_eq_ok_iff]

theorem exists_execute_generate_iff (hname : Script.isName name = true) :
    (∃ output, (execute files registry options (.generate name up down)).result = .ok output) ↔
      CanMigrate files registry options up down := by
  simp only [execute_generate_eq_ok_iff]
  unfold CanMigrate
  constructor
  . intro h
    obtain ⟨_, upChanges, downChanges, script, hup, hdown, hscript, _⟩ := h
    exact ⟨upChanges, downChanges, hup, hdown, (exists_assemble_iff hname).mp ⟨script, hscript⟩⟩
  . intro h
    obtain ⟨upChanges, downChanges, hup, hdown, hplans⟩ := h
    obtain ⟨script, hscript⟩ := (exists_assemble_iff hname).mpr hplans
    exact ⟨_, upChanges, downChanges, script, hup, hdown, hscript, rfl⟩

theorem exists_execute_check_iff :
    (∃ output, (execute files registry options (.check up down)).result = .ok output) ↔
      CanMigrate files registry options up down := by
  unfold execute CanMigrate
  simp only [Work.result_bind, Work.result_pure, Work.result_log, bind_eq_ok_iff,
    readChangeSet_eq_ok_iff, readChangeSet?_eq_ok_iff, compile_result_eq_ok_iff]
  constructor
  . intro h
    obtain ⟨_, upChanges, hup, upPlan, hupPlan, downChanges, hdown, downPlan, hdownPlan, _⟩ := h
    exact ⟨upChanges, downChanges, hup, hdown, ⟨upPlan, hupPlan⟩, downPlan, hdownPlan⟩
  . intro h
    obtain ⟨upChanges, downChanges, hup, hdown, ⟨upPlan, hupPlan⟩, downPlan, hdownPlan⟩ := h
    exact ⟨_, upChanges, hup, upPlan, hupPlan, downChanges, hdown, downPlan, hdownPlan, (),
      trivial, rfl⟩

theorem exists_compile_empty : ∃ plan, ChangeSet.empty.compile registry options = .ok plan := by
  have hnone : ChangeSet.empty.definedColumns = [] := rfl
  rw [ChangeSet.compile_eq_ok_iff]
  unfold ChangeSet.DefaultsAllowed ChangeSet.ModelsKnown
  rw [hnone]
  exact ⟨rfl, .inr (by simp), by simp⟩

theorem exists_execute_plan_iff :
    (∃ output, (execute files registry options (.plan up)).result = .ok output) ↔
      CanMigrate files registry options up none := by
  unfold execute CanMigrate
  simp only [Work.result_bind, Work.result_pure, bind_eq_ok_iff, readChangeSet_eq_ok_iff,
    compile_result_eq_ok_iff]
  constructor
  . intro h
    obtain ⟨_, upChanges, hup, plan, hplan, _⟩ := h
    exact ⟨upChanges, .empty, hup, rfl, ⟨plan, hplan⟩, exists_compile_empty⟩
  . intro h
    obtain ⟨upChanges, _, hup, _, ⟨plan, hplan⟩, _⟩ := h
    exact ⟨_, upChanges, hup, plan, hplan, rfl⟩

end

theorem run_iff {env : String → Option String} {args : List String} {i : Invocation} {p : Bool}
    (h : Arguments.request? env args = if p then some (.run i) else none) {output : String} :
    (run files env args).status = 0 ∧ (run files env args).stdout = output ↔
      p = true ∧ (work files i).result = .ok output := by
  unfold run
  rw [h]
  cases p with
  | false => simp
  | true => simpa using Work.outcome_iff

theorem status_eq_zero_iff {env : String → Option String} {args : List String} {i : Invocation}
    {p : Bool} (h : Arguments.request? env args = if p then some (.run i) else none) :
    (run files env args).status = 0 ↔
      p = true ∧ ∃ registry, files.HoldsOr .empty Registry.reader i.models registry ∧
        ∃ output, (execute files registry ⟨i.allowAmbiguousDefaults⟩ i.subcommand).result =
          .ok output := by
  have hrun : (run files env args).status = 0 ↔
      ∃ output, (run files env args).status = 0 ∧ (run files env args).stdout = output := by
    simp
  rw [hrun]
  simp only [run_iff h]
  unfold work
  simp only [Work.result_bind, bind_eq_ok_iff, readRegistry_eq_ok_iff]
  constructor
  . intro hdone
    obtain ⟨output, hp, registry, hregistry, houtput⟩ := hdone
    exact ⟨hp, registry, hregistry, output, houtput⟩
  . intro hdone
    obtain ⟨hp, registry, hregistry, output, houtput⟩ := hdone
    exact ⟨output, hp, registry, hregistry, houtput⟩

theorem stdout_of_status_ne_zero {env : String → Option String} {args : List String}
    (h : (run files env args).status ≠ 0) : (run files env args).stdout = "" := by
  revert h
  unfold run
  cases Arguments.request? env args with
  | none => simp
  | some request =>
    cases request with
    | version => simp
    | run i =>
      dsimp only
      unfold Work.outcome
      cases (work files i).result <;> simp

theorem Arguments.isValue_of_isName {name : String} (h : Script.isName name = true) :
    isValue name = true := by
  unfold Script.isName at h
  unfold isValue
  cases hname : name.toList with
  | nil => rfl
  | cons c cs =>
    have hdash : c ≠ '-' := by
      intro heq
      rw [hname, heq] at h
      simp [Script.isNameStart] at h
    simp [hdash]

/--
A check succeeds just if the script can be generated under any name that a script can have, and a
plan can be made just if the check of the same change set succeeds. A run that fails prints nothing,
and what is printed for a script is the script of the two change sets in the files.
-/
theorem run_agrees (files : Files) (env : String → Option String) (o : MainOptions)
    (name up : String) (down : Option String) (hname : Script.isName name = true) :
    ((run files env (o.args ++ checkArgs up down)).status = 0 ↔
      (run files env (o.args ++ generateArgs name up down)).status = 0) ∧
    ((run files env (o.args ++ planArgs up)).status = 0 ↔
      (run files env (o.args ++ checkArgs up none)).status = 0) ∧
    (∀ args, (run files env args).status ≠ 0 → (run files env args).stdout = "") ∧
    ∀ output, (run files env (o.args ++ generateArgs name up down)).status = 0 ∧
        (run files env (o.args ++ generateArgs name up down)).stdout = output ↔
      (o.isAccepted env && (Arguments.isPath up && down.all Arguments.isPath)) = true ∧
      ∃ registry upChanges downChanges script,
        files.HoldsOr .empty Registry.reader (o.modelsPath env) registry ∧
        files.Holds ChangeSet.record.read up upChanges ∧
        files.HoldsOr .empty ChangeSet.record.read down downChanges ∧
        Script.assemble registry (o.options env) name upChanges downChanges = .ok script ∧
        script.render .schemaBuilder = output := by
  have hplan := o.request?_args env (fun _ => rfl) (Arguments.readSubcommand_plan up)
  have hcheck := fun down =>
    o.request?_args env (fun _ => rfl) (Arguments.readSubcommand_check up down)
  have hgenerate := o.request?_args env (fun _ => rfl)
    (Arguments.readSubcommand_generate up down (Arguments.isValue_of_isName hname))
  unfold planArgs checkArgs generateArgs
  refine ⟨?_, ?_, fun _ => stdout_of_status_ne_zero, ?_⟩
  . rw [status_eq_zero_iff (hcheck down), status_eq_zero_iff hgenerate]
    dsimp only [MainOptions.invocation]
    simp only [exists_execute_check_iff, exists_execute_generate_iff hname]
  . rw [status_eq_zero_iff hplan, status_eq_zero_iff (hcheck none)]
    dsimp only [MainOptions.invocation]
    simp only [exists_execute_plan_iff, exists_execute_check_iff, Option.all_none, Bool.and_true]
  . intro output
    refine (run_iff hgenerate).trans ?_
    apply and_congr_right
    intro _
    unfold work
    simp only [Work.result_bind, bind_eq_ok_iff, readRegistry_eq_ok_iff]
    dsimp only [MainOptions.invocation]
    simp only [execute_generate_eq_ok_iff, exists_and_left]

def authorChanges : ChangeSet where
  updated := some ⟨[("posts", {
    connection := "main"
    created := some ⟨[
      ("author", { type := "integer", belongsTo := some ⟨"author_id", "User"⟩ })]⟩ })]⟩

def authorFiles : Files := fun path =>
  if path = "models.json" then
    .ok "\x7b\"User\": \x7b\"table\": \"users\"\x7d\x7d".toUTF8
  else if path = "up.json" then
    .ok ("\x7b\"updated\": \x7b\"posts\": [\"main\", \x7b\"author\": \x7b\"type\": \"integer\", "
      ++ "\"belongsTo\": [\"author_id\", \"User\"]\x7d\x7d]\x7d\x7d").toUTF8
  else
    .error .missing

theorem authorFiles_holds_registry : authorFiles.Holds Registry.reader "models.json" blogRegistry :=
  ⟨_, _, rfl, fromUTF8?_toUTF8 _, rfl⟩

theorem authorFiles_holds_changes :
    authorFiles.Holds ChangeSet.record.read "up.json" authorChanges :=
  ⟨_, _, rfl, fromUTF8?_toUTF8 _, rfl⟩

theorem authorFiles_agrees :
    Script.isName "AddAuthor" = true ∧
    (run authorFiles (fun _ => none)
      ["--models", "models.json", "generate", "--name", "AddAuthor", "--up", "up.json"]).status = 0 ∧
    (run authorFiles (fun _ => none)
      ["--models", "models.json", "check", "--up", "up.json"]).status = 0 ∧
    (run authorFiles (fun _ => none)
      ["--models", "models.json", "plan", "--up", "up.json"]).status = 0 ∧
    (run authorFiles (fun _ => none) ["plan", "--up", "down.json"]).status = 1 ∧
    (run authorFiles (fun _ => none) ["plan", "--up", "down.json"]).stdout = "" := by
  have hname : Script.isName "AddAuthor" = true := by decide
  obtain ⟨hcheck, hplan, hfailure, hscript⟩ := run_agrees authorFiles (fun _ => none)
    ⟨some "models.json", false, false⟩ "AddAuthor" "up.json" none hname
  have hgenerate := ((hscript _).mpr ⟨by decide, blogRegistry, authorChanges, .empty, _,
    authorFiles_holds_registry, authorFiles_holds_changes, rfl, rfl, rfl⟩).1
  have hmissing : (run authorFiles (fun _ => none) ["plan", "--up", "down.json"]).status = 1 := by
    decide +kernel
  refine ⟨hname, hgenerate, hcheck.mpr hgenerate, hplan.mpr (hcheck.mpr hgenerate), hmissing,
    hfailure _ ?_⟩
  rw [hmissing]
  decide

end SchemaMigration.Command
