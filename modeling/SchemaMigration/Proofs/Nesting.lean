import SchemaMigration.Proofs.Parts
import SchemaMigration.Script.Writer
import Mathlib.Data.List.Infix
import Mathlib.Order.Bounds.Basic

/-!
This module contains what a writer comes to after any calls. There is no way back from the outermost
level, so calls that go back are lost there. How deep the next line stands is how far the calls have
come from the lowest point that they went through, and the text follows from this call by call.
-/

namespace SchemaMigration.Writer

inductive Call where
  | line (text : String)
  | blank
  | indent
  | outdent
  deriving DecidableEq

def call (w : Writer) : Call → Writer
  | .line text => w.line text
  | .blank => w.blank
  | .indent => w.indent
  | .outdent => w.outdent

def run (w : Writer) (calls : List Call) : Writer := calls.foldl call w

def new (unit : String) : Writer := { unit := unit }

def net (calls : List Call) : Int := calls.count .indent - calls.count .outdent

/--
The lowest level that calls go through, if levels below the outermost one count too. They are at 0
before the first call.
-/
def lowest (calls : List Call) : Int := (calls.inits.map net).foldl min 0

def level (calls : List Call) : Nat := (net calls - lowest calls).toNat

def moments (calls : List Call) : List (List Call × Call) := calls.inits.zip calls

def Call.written? (unit : String) (depth : Nat) : Call → Option String
  | .line text => some (indentation unit depth ++ text)
  | .blank => some ""
  | .indent => none
  | .outdent => none

def written (unit : String) (calls : List Call) : List String :=
  (moments calls).filterMap fun m => m.2.written? unit (level m.1)

theorem run_append_singleton (w : Writer) (calls : List Call) (c : Call) :
    w.run (calls ++ [c]) = (w.run calls).call c := by
  unfold run
  rw [List.foldl_append]
  rfl

theorem moments_append_singleton (calls : List Call) (c : Call) :
    moments (calls ++ [c]) = moments calls ++ [(calls, c)] := by
  unfold moments
  induction calls with
  | nil => rfl
  | cons first calls ih =>
    rw [List.cons_append, List.inits_cons, List.inits_cons]
    rw [List.zip_cons_cons, List.zip_cons_cons, List.zip_map_left, List.zip_map_left, ih]
    simp

theorem net_append_singleton (calls : List Call) (c : Call) :
    net (calls ++ [c]) = net calls + net [c] := by
  unfold net
  rw [List.count_append, List.count_append]
  omega

theorem lowest_append_singleton (calls : List Call) (c : Call) :
    lowest (calls ++ [c]) = min (lowest calls) (net (calls ++ [c])) := by
  unfold lowest
  rw [List.inits_append, List.map_append, List.foldl_append]
  rfl

theorem isLeast_lowest (calls : List Call) :
    IsLeast (net '' {before | before <+: calls}) (lowest calls) := by
  induction calls using List.reverseRecOn with
  | nil =>
    have hset : {before : List Call | before <+: []} = {[]} := by
      ext before
      exact List.prefix_nil
    rw [hset, Set.image_singleton]
    exact isLeast_singleton
  | append_singleton calls c ih =>
    have hset : {before | before <+: calls ++ [c]} =
        insert (calls ++ [c]) {before | before <+: calls} := by
      ext before
      exact List.prefix_concat_iff
    rw [hset, Set.image_insert_eq, lowest_append_singleton, min_comm]
    exact ih.insert _

theorem lowest_nonpos (calls : List Call) : lowest calls ≤ 0 :=
  (isLeast_lowest calls).2 ⟨[], List.nil_prefix, rfl⟩

-- Going back from a level that is the lowest so far takes the lowest one down, and the writer is as
-- far from it as before, which is not at all.
theorem depth_call {w : Writer} {level lowest : Int} (h : (w.depth : Int) = level - lowest)
    (c : Call) :
    ((w.call c).depth : Int) = level + net [c] - min lowest (level + net [c]) := by
  cases c with
  | line text =>
    have hnet : net [.line text] = 0 := rfl
    rw [call, depth_line, hnet]
    omega
  | blank =>
    have hnet : net [.blank] = 0 := rfl
    rw [call, depth_blank, hnet]
    omega
  | indent =>
    have hnet : net [.indent] = 1 := rfl
    rw [call, depth_indent, hnet]
    omega
  | outdent =>
    have hnet : net [.outdent] = -1 := rfl
    rw [call, depth_outdent, hnet]
    omega

theorem depth_run (w : Writer) (calls : List Call) :
    ((w.run calls).depth : Int) = net calls - min (lowest calls) (-w.depth) := by
  induction calls using List.reverseRecOn with
  | nil =>
    have hnet : net [] = 0 := rfl
    have hlowest : lowest [] = 0 := rfl
    have hrun : w.run [] = w := rfl
    rw [hnet, hlowest, hrun]
    omega
  | append_singleton calls c ih =>
    rw [run_append_singleton, depth_call ih, lowest_append_singleton, net_append_singleton]
    omega

theorem level_eq (calls : List Call) : (level calls : Int) = net calls - lowest calls := by
  have hle : lowest calls ≤ net calls :=
    (isLeast_lowest calls).2 ⟨calls, List.prefix_refl calls, rfl⟩
  unfold level
  omega

theorem depth_run_new (unit : String) (calls : List Call) :
    ((new unit).run calls).depth = level calls := by
  have hrun := depth_run (new unit) calls
  have hdepth : (new unit).depth = 0 := rfl
  have hlevel := level_eq calls
  have hlowest := lowest_nonpos calls
  rw [hdepth] at hrun
  omega

theorem written_append_singleton (unit : String) (calls : List Call) (c : Call) :
    written unit (calls ++ [c]) =
      written unit calls ++ (c.written? unit (level calls)).toList := by
  unfold written
  rw [moments_append_singleton, List.filterMap_append]
  cases c <;> rfl

theorem unit_run (w : Writer) (calls : List Call) : (w.run calls).unit = w.unit := by
  induction calls using List.reverseRecOn with
  | nil => rfl
  | append_singleton calls c ih =>
    rw [run_append_singleton, ← ih]
    cases c <;> rfl

theorem lines_call (w : Writer) (c : Call) :
    (w.call c).lines.toList = w.lines.toList ++ (c.written? w.unit w.depth).toList := by
  cases c <;> simp [call, Call.written?]

theorem lines_run_new (unit : String) (calls : List Call) :
    ((new unit).run calls).lines.toList = written unit calls := by
  induction calls using List.reverseRecOn with
  | nil => rfl
  | append_singleton calls c ih =>
    rw [run_append_singleton, lines_call, ih, unit_run, depth_run_new]
    rw [written_append_singleton]
    rfl

theorem written_eq_nil_iff (unit : String) (calls : List Call) :
    written unit calls = [] ↔ ∀ c ∈ calls, c = .indent ∨ c = .outdent := by
  induction calls using List.reverseRecOn with
  | nil => simp [written, moments]
  | append_singleton calls c ih =>
    rw [written_append_singleton, List.append_eq_nil_iff, ih]
    rw [List.forall_mem_append, List.forall_mem_singleton]
    cases c <;> simp [Call.written?]

-- Every line ends where the next one begins, and the last one ends where the text does.
theorem text_eq_join {w : Writer} (h : w.lines.toList ≠ []) :
    w.text = String.join (w.lines.toList.map (· ++ "\n")) := by
  unfold text
  rw [← String.toList_inj, String.toList_append, String.toList_intercalate, String.toList_join]
  rw [intercalate_append (by simpa using h), List.flatMap_map, List.flatMap_map]
  simp

/--
What a new writer comes to. After any part of the calls it is as deep as the calls have come from
their lowest level so far. Its text is the lines of the calls with a line feed between any two and
one at the end, so that each line is ended by its own, and a single line feed if the calls write no
line.
-/
theorem run_writes (unit : String) (calls : List Call) :
    (∀ before, before <+: calls →
      IsLeast (net '' {part | part <+: before}) (lowest before) ∧
      (level before : Int) = net before - lowest before ∧
      ((new unit).run before).depth = level before) ∧
    ((new unit).run calls).text = "\n".intercalate (written unit calls) ++ "\n" ∧
    (written unit calls ≠ [] →
      ((new unit).run calls).text = String.join ((written unit calls).map (· ++ "\n"))) ∧
    ((∀ c ∈ calls, c = .indent ∨ c = .outdent) → ((new unit).run calls).text = "\n") := by
  have hlines := lines_run_new unit calls
  have htext : ((new unit).run calls).text = "\n".intercalate (written unit calls) ++ "\n" := by
    rw [text, hlines]
  refine ⟨?_, htext, ?_, ?_⟩
  . intro before _
    exact ⟨isLeast_lowest before, level_eq before, depth_run_new unit before⟩
  . intro hne
    rw [← hlines] at hne ⊢
    exact text_eq_join hne
  . intro hsilent
    rw [htext, (written_eq_nil_iff unit calls).mpr hsilent]
    rfl

def crookedCalls : List Call :=
  [.outdent, .line "a", .indent, .indent, .blank, .line "b", .outdent, .outdent, .outdent, .indent,
    .line "c"]

-- Two calls go back further than there is to go, and the last line stands one level deep all the
-- same.
theorem crookedCalls_write :
    crookedCalls.take 10 <+: crookedCalls ∧
    IsLeast (net '' {part | part <+: crookedCalls.take 10}) (-2) ∧
    ((new "  ").run (crookedCalls.take 10)).depth = 1 ∧
    written "  " crookedCalls ≠ [] ∧
    ((new "  ").run crookedCalls).text = "a\n" ++ "\n" ++ "    b\n" ++ "  c\n" ∧
    (∀ c ∈ [Call.outdent, .indent], c = .indent ∨ c = .outdent) ∧
    ((new "  ").run [.outdent, .indent]).text = "\n" := by
  have hbefore : crookedCalls.take 10 <+: crookedCalls := List.take_prefix 10 crookedCalls
  have hwritten : written "  " crookedCalls ≠ [] := by decide
  have hsilent : ∀ c ∈ [Call.outdent, .indent], c = .indent ∨ c = .outdent := by decide
  obtain ⟨hdepth, _, htext, _⟩ := run_writes "  " crookedCalls
  obtain ⟨hleast, _, hdepth⟩ := hdepth _ hbefore
  obtain ⟨_, _, _, hempty⟩ := run_writes "  " [.outdent, .indent]
  refine ⟨hbefore, hleast, hdepth, hwritten, ?_, hsilent, hempty hsilent⟩
  rw [htext hwritten]
  rfl

end SchemaMigration.Writer
