import SchemaMigration.Proofs.CommandLine
import SchemaMigration.Proofs.Parts
import SchemaMigration.Proofs.StatementCount
import Mathlib.Data.List.DropRight

/-!
This module contains what a check reports: for each direction the groups that have a table, with
their numbers of statements, and at last the totals of both directions. The numbers in the lines add
up to the totals, and these are what the change sets come to.
-/

namespace SchemaMigration.Command

open Json

def reportedCount? (direction : String) (e : Event) : Option Nat :=
  if e.level = .info then do
    let text ← e.message.toList.dropPrefix? (direction ++ ": ").toList
    let text ← text.dropSuffix? " statements)".toList
    some (Lexeme.ofDigits (text.rtakeWhile Char.isDigit))
  else
    none

theorem rtakeWhile_isDigit {digits : List Char} (h : ∀ c ∈ digits, c.isDigit) (front : List Char) :
    (front ++ '(' :: digits).rtakeWhile Char.isDigit = digits := by
  unfold List.rtakeWhile
  rw [List.reverse_append, List.reverse_cons, List.append_assoc]
  rw [List.takeWhile_append_of_pos (by simpa using h)]
  simp

theorem ofDigits_repr (n : Nat) : Lexeme.ofDigits n.repr.toList = n := by
  rw [Nat.toList_repr]
  exact Nat.ofDigitChars_toDigits (by decide) (by decide)

theorem reportedCount?_info (direction front : String) (n : Nat) :
    reportedCount? direction
      (info (direction ++ ": " ++ front ++ "(" ++ toString n ++ " statements)")) = some n := by
  have hdigits : ∀ c ∈ n.repr.toList, c.isDigit := by
    intro c hc
    rw [Nat.toList_repr] at hc
    exact Nat.isDigit_of_mem_toDigits (by decide) (by decide) hc
  have hmessage : (direction ++ ": " ++ front ++ "(" ++ toString n ++ " statements)").toList =
      (direction ++ ": ").toList ++
        ((front.toList ++ '(' :: n.repr.toList) ++ " statements)".toList) := by
    simp only [String.toList_append, List.append_assoc]
    rfl
  have hfront := List.dropPrefix?_append_of_beq
    ((front.toList ++ '(' :: n.repr.toList) ++ " statements)".toList)
    (beq_self_eq_true (direction ++ ": ").toList)
  have hnumber : ((front.toList ++ '(' :: n.repr.toList) ++ " statements)".toList).dropSuffix?
      " statements)".toList = some (front.toList ++ '(' :: n.repr.toList) :=
    List.dropSuffix?_eq_some_iff.mpr ⟨_, rfl, beq_self_eq_true _⟩
  unfold reportedCount? info
  rw [if_pos rfl, hmessage, hfront, Option.bind_eq_bind, Option.bind_some, hnumber]
  simp only [Option.bind_some, Option.some.injEq]
  rw [rtakeWhile_isDigit hdigits, ofDigits_repr]

theorem reportedCount?_group (direction table : String) (kind : PassKind) (group : Group) :
    reportedCount? direction (info (direction ++ ": " ++ kind.name ++ " '" ++ table ++ "' ("
      ++ toString group.statementCount ++ " statements)")) = some group.statementCount := by
  have hmessage : direction ++ ": " ++ kind.name ++ " '" ++ table ++ "' (" =
      direction ++ ": " ++ (kind.name ++ " '" ++ table ++ "' ") ++ "(" := by
    simp [String.append_assoc]
  rw [hmessage, reportedCount?_info]

theorem reportedCount?_nothing (direction : String) :
    reportedCount? direction (info (direction ++ ": nothing to do")) = none := by
  have hmessage : (direction ++ ": nothing to do").toList =
      (direction ++ ": ").toList ++ "nothing to do".toList := by
    simp
  have hfront := List.dropPrefix?_append_of_beq "nothing to do".toList
    (beq_self_eq_true (direction ++ ": ").toList)
  have hnumber : "nothing to do".toList.dropSuffix? " statements)".toList = none := by decide
  unfold reportedCount? info
  rw [if_pos rfl, hmessage, hfront, Option.bind_eq_bind, Option.bind_some, hnumber]
  rfl

theorem reportedCount?_eq_none {direction front : String}
    (h : ¬(direction ++ ": ").toList <+: front.toList)
    (h' : ¬front.toList <+: (direction ++ ": ").toList) (behind : String) :
    reportedCount? direction (info (front ++ behind)) = none := by
  unfold reportedCount? info
  rw [if_pos rfl, String.toList_append, dropPrefix?_eq_none h h']
  rfl

theorem reportedCount?_of_level_ne {direction : String} {e : Event} (h : e.level ≠ .info) :
    reportedCount? direction e = none := if_neg h

theorem filterMap_planEvents (direction : String) (plan : Plan) :
    (planEvents direction plan).filterMap (reportedCount? direction) =
      (plan.groups.filter (·.table?.isSome)).map Group.statementCount := by
  unfold planEvents
  split
  . next hempty =>
    have hgroups : plan.groups = [] := by
      unfold Plan.groups
      rw [List.isEmpty_iff.mp hempty]
      rfl
    rw [hgroups, List.filterMap_cons_none (reportedCount?_nothing direction)]
    rfl
  . unfold Plan.groups
    rw [List.filterMap_flatMap, List.filter_flatMap, List.map_flatMap]
    apply List.flatMap_congr
    intro pass _
    rw [List.filterMap_filterMap, ← List.filterMap_eq_map, List.filterMap_filter]
    apply List.filterMap_congr
    intro group _
    cases htable : group.table? with
    | none => rfl
    | some table => exact reportedCount?_group direction table pass.kind group

theorem sum_filterMap_planEvents {lookup : Lookup} {options : Options} {cs : ChangeSet} {plan : Plan}
    (h : cs.compileWith lookup options = .ok plan) (direction : String) :
    ((planEvents direction plan).filterMap (reportedCount? direction)).sum = cs.statementCount := by
  rw [filterMap_planEvents, ← ChangeSet.statementCount_eq_sum_filter h]
  exact ChangeSet.statementCount_of_compileWith h

theorem filterMap_planEvents_of_ne {direction direction' : String}
    (h : ¬(direction ++ ": ").toList <+: (direction' ++ ": ").toList)
    (h' : ¬(direction' ++ ": ").toList <+: (direction ++ ": ").toList) (plan : Plan) :
    (planEvents direction' plan).filterMap (reportedCount? direction) = [] := by
  rw [List.filterMap_eq_nil_iff]
  unfold planEvents
  split
  . rw [List.forall_mem_singleton]
    have hmessage : ": nothing to do" = ": " ++ "nothing to do" := by decide
    rw [hmessage, ← String.append_assoc]
    exact reportedCount?_eq_none h h' _
  . simp only [List.forall_mem_flatMap, List.mem_filterMap]
    intro pass _ e he
    obtain ⟨group, _, hevent⟩ := he
    obtain ⟨table, _, rfl⟩ := Option.map_eq_some_iff.mp hevent
    simp only [String.append_assoc]
    rw [← String.append_assoc]
    exact reportedCount?_eq_none h h' _

theorem reportedCount?_totalEvent {direction : String} (up down : Plan)
    (h : ¬(direction ++ ": ").toList <+: "OK: ".toList)
    (h' : ¬"OK: ".toList <+: (direction ++ ": ").toList) :
    reportedCount? direction (totalEvent up down) = none := by
  unfold totalEvent
  simp only [String.append_assoc]
  exact reportedCount?_eq_none h h' _

def Quiet (events : List Event) : Prop := ∀ e ∈ events, e.level ≠ .info

theorem Quiet.filterMap {events : List Event} (h : Quiet events) (direction : String) :
    events.filterMap (reportedCount? direction) = [] := by
  rw [List.filterMap_eq_nil_iff]
  intro e he
  exact reportedCount?_of_level_ne (h e he)

theorem quiet_append {events events' : List Event} :
    Quiet (events ++ events') ↔ Quiet events ∧ Quiet events' := List.forall_mem_append

theorem quiet_map {α : Type} {f : α → Event} (h : ∀ a, (f a).level ≠ .info) (as : List α) :
    Quiet (as.map f) := by
  unfold Quiet
  rw [List.forall_mem_map]
  intro a _
  exact h a

theorem quiet_compileEvents (registry : Registry) (options : Options) (cs : ChangeSet) :
    Quiet (compileEvents registry options cs) := by
  unfold compileEvents passEvents
  split
  . simp only [quiet_append]
    refine ⟨⟨⟨⟨?_, ?_⟩, ?_⟩, ?_⟩, ?_⟩
    . exact quiet_map (by simp [ambiguityEvent]) _
    . exact quiet_map (by simp [tableEvent]) _
    . exact quiet_map (by simp [tableEvent]) _
    . exact quiet_map (by simp [relationsEvent]) _
    . split
      . simp [Quiet]
      . rw [quiet_append]
        exact ⟨quiet_map (by simp [tableEvent]) _, quiet_map (by simp [passEvent]) _⟩
  . simp [Quiet]

theorem Work.events_bind {α β : Type} {w : Work α} {a : α} (h : w.result = .ok a)
    (next : α → Work β) : (w >>= next).events = w.events ++ (next a).events := by
  show (w.andThen next).events = _
  unfold andThen
  rw [h]

theorem Work.events_log (events : List Event) : (Work.log events).events = events := rfl

theorem Work.events_pure {α : Type} (a : α) : (pure a : Work α).events = [] := rfl

theorem quiet_nil : Quiet [] := by
  simp [Quiet]

theorem Work.quiet_bind {α β : Type} {w : Work α} {next : α → Work β} (hw : Quiet w.events)
    (hnext : ∀ a, Quiet (next a).events) : Quiet (w >>= next).events := by
  show Quiet (w.andThen next).events
  unfold andThen
  cases w.result with
  | error f => exact hw
  | ok a => exact quiet_append.mpr ⟨hw, hnext a⟩

theorem quiet_compile (registry : Registry) (options : Options) (cs : ChangeSet) :
    Quiet (compile registry options cs).events :=
  Work.quiet_bind (quiet_compileEvents registry options cs) fun _ => quiet_nil

section

variable {files : Files}

theorem quiet_readRegistry (path : Option String) : Quiet (readRegistry files path).events := by
  cases path with
  | none => exact quiet_nil
  | some path =>
    apply Work.quiet_bind quiet_nil
    intro registry
    apply Work.quiet_bind
    . simp [Quiet, Work.log]
    . exact fun _ => quiet_nil

theorem events_readChangeSet (path : String) : (readChangeSet files path).events = [] := rfl

theorem events_readChangeSet? (path : Option String) : (readChangeSet? files path).events = [] := by
  cases path <;> rfl

theorem events_execute_check {registry : Registry} {options : Options} {up : String}
    {down : Option String} {upChanges downChanges : ChangeSet} {upPlan downPlan : Plan}
    (hup : (readChangeSet files up).result = .ok upChanges)
    (hupPlan : (compile registry options upChanges).result = .ok upPlan)
    (hdown : (readChangeSet? files down).result = .ok downChanges)
    (hdownPlan : (compile registry options downChanges).result = .ok downPlan) :
    (execute files registry options (.check up down)).events =
      (compile registry options upChanges).events ++ (compile registry options downChanges).events
        ++ (planEvents "up" upPlan ++ planEvents "down" downPlan ++ [totalEvent upPlan downPlan]) := by
  unfold execute
  dsimp only
  rw [Work.events_bind hup, Work.events_bind hupPlan, Work.events_bind hdown,
    Work.events_bind hdownPlan, Work.events_bind (Work.result_log _)]
  rw [events_readChangeSet, events_readChangeSet?, Work.events_log, Work.events_pure]
  rw [List.nil_append, List.nil_append, List.append_nil, ← List.append_assoc]

theorem events_work_check {i : Invocation} {up : String} {down : Option String} {output : String}
    (hcheck : i.subcommand = .check up down) (h : (work files i).result = .ok output) :
    ∃ registry upChanges downChanges upPlan downPlan events,
      files.Holds ChangeSet.record.read up upChanges ∧
      files.HoldsOr .empty ChangeSet.record.read down downChanges ∧
      upChanges.compile registry ⟨i.allowAmbiguousDefaults⟩ = .ok upPlan ∧
      downChanges.compile registry ⟨i.allowAmbiguousDefaults⟩ = .ok downPlan ∧ Quiet events ∧
      (work files i).events = events ++ planEvents "up" upPlan ++ planEvents "down" downPlan
        ++ [totalEvent upPlan downPlan] := by
  unfold work execute at h
  rw [hcheck] at h
  simp only [Work.result_bind, Work.result_pure, Work.result_log, bind_eq_ok_iff] at h
  obtain ⟨registry, hregistry, upChanges, hup, upPlan, hupPlan, downChanges, hdown, downPlan,
    hdownPlan, _⟩ := h
  refine ⟨registry, upChanges, downChanges, upPlan, downPlan,
    (readRegistry files i.models).events
      ++ (compile registry ⟨i.allowAmbiguousDefaults⟩ upChanges).events
      ++ (compile registry ⟨i.allowAmbiguousDefaults⟩ downChanges).events,
    readChangeSet_eq_ok_iff.mp hup, readChangeSet?_eq_ok_iff.mp hdown,
    compile_result_eq_ok_iff.mp hupPlan, compile_result_eq_ok_iff.mp hdownPlan, ?_, ?_⟩
  . rw [quiet_append, quiet_append]
    exact ⟨⟨quiet_readRegistry _, quiet_compile _ _ _⟩, quiet_compile _ _ _⟩
  . unfold work
    rw [hcheck, Work.events_bind hregistry]
    rw [events_execute_check hup hupPlan hdown hdownPlan]
    simp only [List.append_assoc]

end

/--
The number of statements in a plan is what its change set comes to, and the groups with a table have
all of them. A check that succeeds reports their numbers, and ends with the totals: the numbers that
are reported for a direction add up to its total, which is what the change set in the file comes to.
-/
theorem statementCount_exact :
    (∀ (lookup : Lookup) (options : Options) (cs : ChangeSet) (plan : Plan),
      cs.compileWith lookup options = .ok plan →
      plan.statementCount = cs.statementCount ∧
      plan.statementCount =
        ((plan.groups.filter (·.table?.isSome)).map Group.statementCount).sum) ∧
    ∀ (files : Files) (i : Invocation) (up : String) (down : Option String) (output : String),
      i.subcommand = .check up down → (work files i).result = .ok output →
      ∃ upChanges downChanges,
        files.Holds ChangeSet.record.read up upChanges ∧
        files.HoldsOr .empty ChangeSet.record.read down downChanges ∧
        ((work files i).events.filterMap (reportedCount? "up")).sum = upChanges.statementCount ∧
        ((work files i).events.filterMap (reportedCount? "down")).sum =
          downChanges.statementCount ∧
        (work files i).events.getLast? = some (info ("OK: " ++ toString upChanges.statementCount
          ++ " statements up, " ++ toString downChanges.statementCount ++ " statements down")) := by
  constructor
  . intro lookup options cs plan h
    exact ⟨ChangeSet.statementCount_of_compileWith h, ChangeSet.statementCount_eq_sum_filter h⟩
  . intro files i up down output hcheck h
    obtain ⟨registry, upChanges, downChanges, upPlan, downPlan, events, hup, hdown, hupPlan,
      hdownPlan, hquiet, hevents⟩ := events_work_check hcheck h
    refine ⟨upChanges, downChanges, hup, hdown, ?_, ?_, ?_⟩
    . have hother : (planEvents "down" downPlan).filterMap (reportedCount? "up") = [] :=
        filterMap_planEvents_of_ne (by decide) (by decide) downPlan
      have htotal : reportedCount? "up" (totalEvent upPlan downPlan) = none :=
        reportedCount?_totalEvent upPlan downPlan (by decide) (by decide)
      rw [hevents, ← sum_filterMap_planEvents hupPlan "up"]
      simp only [List.filterMap_append]
      rw [hquiet.filterMap, hother, List.filterMap_cons_none htotal]
      simp
    . have hother : (planEvents "up" upPlan).filterMap (reportedCount? "down") = [] :=
        filterMap_planEvents_of_ne (by decide) (by decide) upPlan
      have htotal : reportedCount? "down" (totalEvent upPlan downPlan) = none :=
        reportedCount?_totalEvent upPlan downPlan (by decide) (by decide)
      rw [hevents, ← sum_filterMap_planEvents hdownPlan "down"]
      simp only [List.filterMap_append]
      rw [hquiet.filterMap, hother, List.filterMap_cons_none htotal]
      simp
    . rw [hevents, ← ChangeSet.statementCount_of_compileWith hupPlan,
        ← ChangeSet.statementCount_of_compileWith hdownPlan]
      exact List.getLast?_concat

theorem Files.Holds.unique {α : Type} {files : Files} {read : Reader α} {path : String} {a a' : α}
    (h : files.Holds read path a) (h' : files.Holds read path a') : a = a' := by
  obtain ⟨bytes, text, hbytes, htext, hread⟩ := h
  obtain ⟨bytes', text', hbytes', htext', hread'⟩ := h'
  rw [hbytes, Except.ok.injEq] at hbytes'
  rw [← hbytes', htext, Option.some.injEq] at htext'
  rw [← htext', hread, Except.ok.injEq] at hread'
  exact hread'

def authorCheck : Invocation := ⟨some "models.json", false, false, .check "up.json" none⟩

theorem authorCheck_result : (work authorFiles authorCheck).result = .ok "" := by
  obtain ⟨downPlan, hdownPlan⟩ := exists_compile_empty
  unfold work execute authorCheck
  simp only [Work.result_bind, Work.result_pure, Work.result_log, bind_eq_ok_iff,
    readRegistry_eq_ok_iff, readChangeSet_eq_ok_iff, readChangeSet?_eq_ok_iff,
    compile_result_eq_ok_iff]
  exact ⟨blogRegistry, authorFiles_holds_registry, authorChanges, authorFiles_holds_changes, _, rfl,
    .empty, rfl, downPlan, hdownPlan, (), trivial, trivial⟩

theorem authorCheck_counts :
    (∃ plan, blogChanges.compileWith blogRegistry.lookup {} = .ok plan ∧
      plan.statementCount = 18) ∧
    authorCheck.subcommand = .check "up.json" none ∧
    (work authorFiles authorCheck).result = .ok "" ∧
    ((work authorFiles authorCheck).events.filterMap (reportedCount? "up")).sum = 2 ∧
    (work authorFiles authorCheck).events.getLast? =
      some (info "OK: 2 statements up, 0 statements down") := by
  obtain ⟨hcount, hreport⟩ := statementCount_exact
  obtain ⟨plan, hplan⟩ := exists_blogPlan
  obtain ⟨upChanges, downChanges, hup, hdown, hsum, _, hlast⟩ :=
    hreport _ _ _ _ _ rfl authorCheck_result
  have hchanges : upChanges = authorChanges := hup.unique authorFiles_holds_changes
  refine ⟨⟨plan, hplan, (hcount _ _ _ _ hplan).1⟩, rfl, authorCheck_result, ?_, ?_⟩
  . rw [hsum, hchanges]
    rfl
  . rw [hlast, hchanges, hdown]
    rfl

end SchemaMigration.Command
