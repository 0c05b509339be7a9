import Mathlib.Data.Finset.Basic
import SchemaMigration.Compile.Basic

/-!
This module contains the running of plans on schemas. A schema knows the tables of all connections,
and of each table its columns and which of them carry a foreign key. A step that the database would
refuse ends the run. Turning the checking of foreign keys off and on makes no difference here.
-/

namespace SchemaMigration

@[ext]
structure Table where
  columns : Finset String
  keyed : Finset String
  keyed_subset : keyed ⊆ columns

-- Tables by their connection and their name.
abbrev Schema := String × String → Option Table

def Block.place (b : Block) : String × String :=
  (b.connection, b.table)

namespace Table

def empty : Table := ⟨∅, ∅, by simp⟩

def addColumn (t : Table) (name : String) : Option Table :=
  if name ∈ t.columns then
    none
  else
    some ⟨insert name t.columns, t.keyed, t.keyed_subset.trans (Finset.subset_insert _ _)⟩

def changeColumn (t : Table) (name : String) : Option Table :=
  if name ∈ t.columns ∧ name ∉ t.keyed then some t else none

def dropColumn (t : Table) (name : String) : Option Table :=
  if h : name ∈ t.columns ∧ name ∉ t.keyed then
    some ⟨t.columns.erase name, t.keyed, Finset.subset_erase.mpr ⟨t.keyed_subset, h.2⟩⟩
  else
    none

def addKey (t : Table) (name : String) : Option Table :=
  if h : name ∈ t.columns ∧ name ∉ t.keyed then
    some ⟨t.columns, insert name t.keyed, Finset.insert_subset h.1 t.keyed_subset⟩
  else
    none

def dropKey (t : Table) (name : String) : Option Table :=
  if name ∈ t.keyed then
    some ⟨t.columns, t.keyed.erase name, (Finset.erase_subset _ _).trans t.keyed_subset⟩
  else
    none

def runStatement (t : Table) : Statement → Option Table
  | .column call =>
    match call.name? with
    | some name => if call.change then t.changeColumn name else t.addColumn name
    | none => none
  | .dropColumn name => t.dropColumn name
  | .dropForeign names => names.foldlM dropKey t
  | .foreign key => t.addKey key.column
  | .connection _ => some t

def run (t : Table) (statements : List Statement) : Option Table :=
  statements.foldlM runStatement t

end Table

namespace Schema

def runCall (s : Schema) : ConnectionCall → Option Schema
  | .disableForeignKeys _ => some s
  | .enableForeignKeys _ => some s
  | .dropTable c name =>
    if (s (c, name)).isSome then some (Function.update s (c, name) none) else none

def runStatement (place : String × String) (s : Schema) : Statement → Option Schema
  | .connection call => s.runCall call
  | statement => do
    let t ← s place
    let t ← t.runStatement statement
    some (Function.update s place (some t))

def runBlock (s : Schema) (b : Block) : Option Schema :=
  b.statements.foldlM (runStatement b.place) s

def runGroup (s : Schema) : Group → Option Schema
  | .createTable b =>
    if (s b.place).isSome then
      none
    else
      runBlock (Function.update s b.place (some .empty)) b
  | .alterTable b => if (s b.place).isSome then s.runBlock b else none
  | .calls list => list.foldlM runCall s
  | .comment _ => some s

def runGroups (s : Schema) (groups : List Group) : Option Schema :=
  groups.foldlM runGroup s

def run (s : Schema) (p : Plan) : Option Schema :=
  s.runGroups p.groups

end Schema

namespace Table

variable {t : Table} {name : String}

theorem addColumn_eq_some (h : name ∉ t.columns) :
    ∃ t', t.addColumn name = some t' ∧ t'.columns = insert name t.columns ∧ t'.keyed = t.keyed := by
  unfold addColumn
  rw [if_neg h]
  exact ⟨_, rfl, rfl, rfl⟩

theorem changeColumn_eq_some (hcolumn : name ∈ t.columns) (hkey : name ∉ t.keyed) :
    t.changeColumn name = some t := by
  unfold changeColumn
  rw [if_pos ⟨hcolumn, hkey⟩]

theorem dropColumn_eq_some (hcolumn : name ∈ t.columns) (hkey : name ∉ t.keyed) :
    ∃ t', t.dropColumn name = some t' ∧
      t'.columns = t.columns.erase name ∧ t'.keyed = t.keyed := by
  unfold dropColumn
  rw [dif_pos ⟨hcolumn, hkey⟩]
  exact ⟨_, rfl, rfl, rfl⟩

theorem addKey_eq_some (hcolumn : name ∈ t.columns) (hkey : name ∉ t.keyed) :
    ∃ t', t.addKey name = some t' ∧ t'.columns = t.columns ∧ t'.keyed = insert name t.keyed := by
  unfold addKey
  rw [dif_pos ⟨hcolumn, hkey⟩]
  exact ⟨_, rfl, rfl, rfl⟩

theorem dropKey_eq_some (h : name ∈ t.keyed) :
    ∃ t', t.dropKey name = some t' ∧ t'.columns = t.columns ∧ t'.keyed = t.keyed.erase name := by
  unfold dropKey
  rw [if_pos h]
  exact ⟨_, rfl, rfl, rfl⟩

@[simp]
theorem run_nil (t : Table) : t.run [] = some t := rfl

theorem run_cons (t : Table) (statement : Statement) (statements : List Statement) :
    t.run (statement :: statements) = (t.runStatement statement).bind (·.run statements) := rfl

theorem run_append (t : Table) (first second : List Statement) :
    t.run (first ++ second) = (t.run first).bind (·.run second) := by
  unfold run
  apply List.foldlM_append

end Table

def Statement.IsLocal : Statement → Prop
  | .connection (.dropTable _ _) => False
  | _ => True

namespace Schema

variable {s : Schema} {t t' : Table} {place : String × String}

theorem runStatement_eq {statement : Statement} (hlocal : statement.IsLocal)
    (hplace : s place = some t) :
    runStatement place s statement =
      (t.runStatement statement).map fun t' => Function.update s place (some t') := by
  have hself : Function.update s place (some t) = s := by
    rw [← hplace]
    apply Function.update_eq_self
  cases statement with
  | connection call =>
    cases call with
    | disableForeignKeys c =>
      dsimp [runStatement, runCall, Table.runStatement]
      rw [hself]
    | enableForeignKeys c =>
      dsimp [runStatement, runCall, Table.runStatement]
      rw [hself]
    | dropTable c name => exact False.elim hlocal
  | _ =>
    simp only [runStatement, hplace, Option.bind_eq_bind, Option.bind_some]
    rw [Option.map_eq_bind]
    rfl

theorem foldlM_runStatement_eq {statements : List Statement}
    (hlocal : ∀ statement ∈ statements, statement.IsLocal) (hplace : s place = some t) :
    statements.foldlM (runStatement place) s =
      (t.run statements).map fun t' => Function.update s place (some t') := by
  induction statements generalizing s t with
  | nil =>
    rw [Table.run_nil, Option.map_some, ← hplace]
    rw [Function.update_eq_self]
    rfl
  | cons statement statements ih =>
    rw [List.foldlM_cons, Table.run_cons]
    rw [runStatement_eq (hlocal statement (by simp)) hplace]
    cases t.runStatement statement with
    | none => rfl
    | some t' =>
      rw [Option.map_some, Option.bind_some]
      show statements.foldlM (runStatement place) (Function.update s place (some t')) = _
      rw [ih (fun st hst => hlocal st (by simp [hst])) (Function.update_self _ _ _)]
      simp only [Function.update_idem]

theorem runGroup_createTable {b : Block} (hlocal : ∀ statement ∈ b.statements, statement.IsLocal)
    (hplace : s b.place = none) (hrun : Table.empty.run b.statements = some t) :
    s.runGroup (.createTable b) = some (Function.update s b.place (some t)) := by
  dsimp only [runGroup, runBlock]
  rw [if_neg (by simp [hplace])]
  rw [foldlM_runStatement_eq hlocal (Function.update_self _ _ _)]
  rw [hrun, Option.map_some, Function.update_idem]

theorem runGroup_alterTable {b : Block} (hlocal : ∀ statement ∈ b.statements, statement.IsLocal)
    (hplace : s b.place = some t) (hrun : t.run b.statements = some t') :
    s.runGroup (.alterTable b) = some (Function.update s b.place (some t')) := by
  dsimp only [runGroup, runBlock]
  rw [if_pos (by simp [hplace])]
  rw [foldlM_runStatement_eq hlocal hplace]
  rw [hrun, Option.map_some]

theorem runGroup_deletionCalls {name connection : String} (hplace : s (connection, name) ≠ none) :
    s.runGroup (.calls (ChangeSet.deletionCalls name connection)) =
      some (Function.update s (connection, name) none) := by
  have hsome : (s (connection, name)).isSome = true := Option.isSome_iff_ne_none.mpr hplace
  simp [runGroup, ChangeSet.deletionCalls, runCall, hsome]

theorem runGroups_append (s : Schema) (first second : List Group) :
    s.runGroups (first ++ second) = (s.runGroups first).bind (·.runGroups second) := by
  unfold runGroups
  apply List.foldlM_append

theorem runGroups_eq_some {α : Type} {items : List α} {groups : List Group}
    {placeOf : α → String × String} {Q : α → Option Table → Prop} (s : Schema)
    (hplaces : (items.map placeOf).Nodup)
    (hgroups : List.Forall₂
      (fun item group => ∃ state, Q item state ∧
        ∀ s' : Schema, s' (placeOf item) = s (placeOf item) →
          s'.runGroup group = some (Function.update s' (placeOf item) state))
      items groups) :
    ∃ s', s.runGroups groups = some s' ∧
      (∀ item ∈ items, Q item (s' (placeOf item))) ∧
      ∀ place, place ∉ items.map placeOf → s' place = s place := by
  -- `now` is the schema at some point of the run, which still agrees with `s` on what is to come.
  suffices hgen : ∀ now : Schema, (∀ item ∈ items, now (placeOf item) = s (placeOf item)) →
      ∃ s', now.runGroups groups = some s' ∧
        (∀ item ∈ items, Q item (s' (placeOf item))) ∧
        ∀ place, place ∉ items.map placeOf → s' place = now place by
    exact hgen s fun _ _ => rfl
  induction hgroups with
  | nil =>
    intro now _
    exact ⟨now, rfl, by simp, fun _ _ => rfl⟩
  | @cons item group items groups hitem _ ih =>
    intro now hnow
    rw [List.map_cons, List.nodup_cons] at hplaces
    obtain ⟨state, hstate, hrun⟩ := hitem
    have hother : ∀ other ∈ items, placeOf other ≠ placeOf item := by
      intro other hmem heq
      apply hplaces.1
      rw [← heq]
      exact List.mem_map_of_mem hmem
    obtain ⟨s', hs', hQ, hkeep⟩ := ih hplaces.2 (Function.update now (placeOf item) state) <| by
      intro other hmem
      rw [Function.update_of_ne (hother other hmem)]
      exact hnow other (by simp [hmem])
    refine ⟨s', ?_, ?_, ?_⟩
    . show now.runGroup group >>= _ = _
      rw [hrun now (hnow item (by simp))]
      exact hs'
    . intro other hmem
      cases List.mem_cons.mp hmem with
      | inl heq =>
        rw [heq, hkeep _ hplaces.1, Function.update_self]
        exact hstate
      | inr hmem => exact hQ other hmem
    . intro place hplace
      rw [List.map_cons, List.mem_cons, not_or] at hplace
      rw [hkeep place hplace.2]
      rw [Function.update_of_ne hplace.1]

end Schema

end SchemaMigration
