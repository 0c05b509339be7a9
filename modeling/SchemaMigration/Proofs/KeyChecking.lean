import Mathlib.Data.Finset.Card
import SchemaMigration.Proofs.Compile

/-!
This module contains the theory of turning the checking of foreign keys off and on again. A plan is
read as a sequence of effects on connections. In the plan of a change set the checking is only off
for a single step that drops a key or a table, on the connection of that step, and what turns it off
and on stands right around the step and in the same group.
-/

namespace SchemaMigration

-- `destroy` drops keys or a table. Everything else that is done to a table is `define`: the adding,
-- changing and dropping of columns and the adding of keys.
inductive Effect where
  | disable (connection : String)
  | enable (connection : String)
  | destroy (connection : String)
  | define (connection : String)

def ConnectionCall.effect : ConnectionCall → Effect
  | .disableForeignKeys c => .disable c
  | .enableForeignKeys c => .enable c
  | .dropTable c _ => .destroy c

-- A call among the statements of a block names its connection itself.
def Statement.effect (connection : String) : Statement → Effect
  | .column _ => .define connection
  | .dropColumn _ => .define connection
  | .dropForeign _ => .destroy connection
  | .foreign _ => .define connection
  | .connection call => call.effect

def Block.effects (b : Block) : List Effect :=
  b.statements.map (Statement.effect b.connection)

def Group.effects : Group → List Effect
  | .createTable block => block.effects
  | .alterTable block => block.effects
  | .calls list => list.map ConnectionCall.effect
  | .comment _ => []

def Plan.effects (p : Plan) : List Effect :=
  p.groups.flatMap Group.effects

def Effect.next (off : Finset String) : Effect → Finset String
  | .disable c => insert c off
  | .enable c => off.erase c
  | .destroy _ => off
  | .define _ => off

-- Checking is on everywhere at first.
def uncheckedAfter (effects : List Effect) : Finset String :=
  effects.foldl Effect.next ∅

/--
An effect of a plan with what is around it: `past` is all that the plan does before it, `before` and
`after` are the effects of its group in front of it and behind it.
-/
def Plan.Does (p : Plan) (past before : List Effect) (effect : Effect) (after : List Effect) :
    Prop :=
  ∃ groups group rest,
    p.groups = groups ++ group :: rest ∧
    group.effects = before ++ effect :: after ∧
    past = groups.flatMap Group.effects ++ before

/--
The discipline of turning the checking of foreign keys off and on.
-/
structure Plan.GuardsKeys (p : Plan) : Prop where
  at_most_one : ∀ past future, p.effects = past ++ future → (uncheckedAfter past).card ≤ 1
  disable : ∀ past before c after, p.Does past before (.disable c) after →
    uncheckedAfter past = ∅ ∧ ∃ tail, after = .destroy c :: .enable c :: tail
  destroy : ∀ past before c after, p.Does past before (.destroy c) after →
    (∃ head, before = head ++ [.disable c]) ∧ ∃ tail, after = .enable c :: tail
  enable : ∀ past before c after, p.Does past before (.enable c) after →
    ∃ head, before = head ++ [.disable c, .destroy c]
  define : ∀ past before c after, p.Does past before (.define c) after → uncheckedAfter past = ∅
  boundary : ∀ groups rest, p.groups = groups ++ rest →
    uncheckedAfter (groups.flatMap Group.effects) = ∅

inductive Guarded : List Effect → Prop where
  | nil : Guarded []
  | define {c : String} {effects : List Effect} (h : Guarded effects) :
    Guarded (.define c :: effects)
  | destroy {c : String} {effects : List Effect} (h : Guarded effects) :
    Guarded (.disable c :: .destroy c :: .enable c :: effects)

namespace Guarded

variable {effects effects' before after : List Effect} {effect : Effect}

theorem append (h : Guarded effects) (h' : Guarded effects') : Guarded (effects ++ effects') := by
  induction h with
  | nil => exact h'
  | define _ ih => exact .define ih
  | destroy _ ih => exact .destroy ih

theorem flatMap {α : Type} {f : α → List Effect} {xs : List α} (h : ∀ x ∈ xs, Guarded (f x)) :
    Guarded (xs.flatMap f) := by
  induction xs with
  | nil => exact .nil
  | cons x xs ih =>
    rw [List.flatMap_cons]
    apply append
    . apply h
      simp
    . apply ih
      intro y hy
      apply h
      simp [hy]

theorem map_define {α : Type} {f : α → Effect} {c : String} (xs : List α)
    (h : ∀ x ∈ xs, f x = .define c) : Guarded (xs.map f) := by
  rw [List.map_eq_flatMap]
  apply flatMap
  intro x hx
  rw [h x hx]
  exact .define .nil

-- A guarded sequence leaves the checking on, so what comes after it starts afresh.
theorem uncheckedAfter_append (h : Guarded effects) (rest : List Effect) :
    uncheckedAfter (effects ++ rest) = uncheckedAfter rest := by
  induction h with
  | nil => rfl
  | define _ ih =>
    rw [← ih]
    rfl
  | @destroy c _ _ ih =>
    have hoff : (insert c (∅ : Finset String)).erase c = ∅ := by simp
    rw [← ih]
    unfold uncheckedAfter
    simp only [List.cons_append, List.foldl_cons, Effect.next]
    rw [hoff]

theorem uncheckedAfter_eq (h : Guarded effects) : uncheckedAfter effects = ∅ := by
  rw [← List.append_nil effects]
  rw [h.uncheckedAfter_append]
  rfl

end Guarded

def Effect.Placed (before after : List Effect) : Effect → Prop
  | .disable c => uncheckedAfter before = ∅ ∧ ∃ tail, after = .destroy c :: .enable c :: tail
  | .destroy c =>
    uncheckedAfter before = {c} ∧ (∃ head, before = head ++ [.disable c]) ∧
      ∃ tail, after = .enable c :: tail
  | .enable c => uncheckedAfter before = {c} ∧ ∃ head, before = head ++ [.disable c, .destroy c]
  | .define _ => uncheckedAfter before = ∅

namespace Effect.Placed

variable {effects before after : List Effect} {effect : Effect}

theorem append (hg : Guarded effects) (h : effect.Placed before after) :
    effect.Placed (effects ++ before) after := by
  have heq := hg.uncheckedAfter_append before
  cases effect with
  | disable c => exact ⟨heq.trans h.1, h.2⟩
  | destroy c =>
    obtain ⟨hoff, ⟨head, hhead⟩, htail⟩ := h
    refine ⟨heq.trans hoff, ⟨effects ++ head, ?_⟩, htail⟩
    rw [hhead, List.append_assoc]
  | enable c =>
    obtain ⟨hoff, head, hhead⟩ := h
    refine ⟨heq.trans hoff, effects ++ head, ?_⟩
    rw [hhead, List.append_assoc]
  | define c => exact heq.trans h

theorem card_le_one (h : effect.Placed before after) : (uncheckedAfter before).card ≤ 1 := by
  cases effect with
  | disable c => simp [h.1]
  | destroy c => simp [h.1]
  | enable c => simp [h.1]
  | define c =>
    have hoff : uncheckedAfter before = ∅ := h
    simp [hoff]

end Effect.Placed

theorem Guarded.placed {effects before after : List Effect} {effect : Effect}
    (h : Guarded effects) (heq : effects = before ++ effect :: after) :
    effect.Placed before after := by
  induction h generalizing before with
  | nil => simp at heq
  | @define c effects _ ih =>
    cases before with
    | nil =>
      rw [List.nil_append, List.cons.injEq] at heq
      rw [← heq.1]
      rfl
    | cons _ before =>
      rw [List.cons_append, List.cons.injEq] at heq
      rw [← heq.1]
      exact .append (.define .nil) (ih heq.2)
  | @destroy c effects _ ih =>
    -- The effect is one of the three that are guarded here, or comes after them.
    match before with
    | [] =>
      rw [List.nil_append, List.cons.injEq] at heq
      rw [← heq.1, ← heq.2]
      exact ⟨rfl, effects, rfl⟩
    | [_] =>
      simp only [List.cons_append, List.nil_append, List.cons.injEq] at heq
      rw [← heq.1, ← heq.2.1, ← heq.2.2]
      exact ⟨rfl, ⟨[], rfl⟩, effects, rfl⟩
    | [_, _] =>
      simp only [List.cons_append, List.nil_append, List.cons.injEq] at heq
      rw [← heq.1, ← heq.2.1, ← heq.2.2.1]
      exact ⟨rfl, [], rfl⟩
    | _ :: _ :: _ :: before =>
      simp only [List.cons_append, List.cons.injEq] at heq
      rw [← heq.1, ← heq.2.1, ← heq.2.2.1]
      exact .append (.destroy .nil) (ih heq.2.2.2)

section Groups

variable {lookup : Lookup} {options : Options} {cs : ChangeSet} {plan : Plan}

theorem Relation.guarded_dropKey_append {last : Statement} {connection : String}
    (hlast : last.effect connection = .define connection) (relation : Option Relation) :
    Guarded ((dropKey relation connection ++ [last]).map (Statement.effect connection)) := by
  rw [List.map_append, List.map_singleton, hlast]
  cases relation with
  | none => exact .define .nil
  | some r => exact .destroy (.define .nil)

theorem TableChange.guarded_statements (t : TableChange) :
    Guarded (t.statements.map (Statement.effect t.connection)) := by
  unfold statements
  rw [List.map_append, List.map_append]
  rw [List.map_map, List.map_flatMap, List.map_flatMap]
  apply Guarded.append
  . apply Guarded.append
    . apply Guarded.map_define
      intros
      rfl
    . apply Guarded.flatMap
      intro entry _
      apply Relation.guarded_dropKey_append
      rfl
  . apply Guarded.flatMap
    intro entry _
    apply Relation.guarded_dropKey_append
    rfl

theorem ChangeSet.guarded_relationshipGroups {groups : List Group}
    (h : cs.relationshipGroups lookup = .ok groups) {group : Group} (hgroup : group ∈ groups) :
    Guarded group.effects := by
  obtain ⟨keyGroups, hkeys, heq⟩ := relationshipGroups_eq_ok_iff.mp h
  have hcases : group = .comment keysComment ∨ group ∈ keyGroups := by
    rw [heq] at hgroup
    split at hgroup
    . simp at hgroup
    . simpa using hgroup
  cases hcases with
  | inl hcomment =>
    rw [hcomment]
    exact .nil
  | inr hmem =>
    obtain ⟨entry, _, hentry⟩ := exists_of_forall₂_of_mem hkeys hmem
    obtain ⟨keys, _, hkeyGroup⟩ := TableChange.relationshipGroup_eq_ok_iff.mp hentry
    rw [hkeyGroup]
    dsimp [Group.effects, Block.effects]
    rw [List.map_map]
    apply Guarded.map_define
    intros
    rfl

theorem ChangeSet.guarded_groups (h : cs.compileWith lookup options = .ok plan) {group : Group}
    (hgroup : group ∈ plan.groups) : Guarded group.effects := by
  obtain ⟨groups, hgroups, heq⟩ := groups_of_compileWith h
  rw [heq] at hgroup
  simp only [List.mem_append, or_assoc] at hgroup
  rcases hgroup with hmem | hmem | hmem | hmem
  . obtain ⟨entry, _, hentry⟩ := List.mem_map.mp hmem
    rw [← hentry]
    apply TableChange.guarded_statements
  . obtain ⟨entry, _, hentry⟩ := List.mem_map.mp hmem
    rw [← hentry]
    apply TableChange.guarded_statements
  . exact guarded_relationshipGroups hgroups hmem
  . obtain ⟨entry, _, hentry⟩ := List.mem_map.mp hmem
    rw [← hentry]
    exact .destroy .nil

end Groups

-- `past` is a sequence of whole groups and a part of one, and the whole groups do not matter.
theorem Plan.Does.placed {p : Plan} (h : ∀ group ∈ p.groups, Guarded group.effects)
    {past before after : List Effect} {effect : Effect} (hdoes : p.Does past before effect after) :
    uncheckedAfter past = uncheckedAfter before ∧ effect.Placed before after := by
  obtain ⟨groups, group, rest, hgroups, heffects, hpast⟩ := hdoes
  constructor
  . rw [hpast]
    apply Guarded.uncheckedAfter_append
    apply Guarded.flatMap
    intro g hg
    apply h
    rw [hgroups]
    simp [hg]
  . apply Guarded.placed _ heffects
    apply h
    rw [hgroups]
    simp

theorem Plan.guardsKeys_of_guarded {p : Plan} (h : ∀ group ∈ p.groups, Guarded group.effects) :
    p.GuardsKeys where
  at_most_one := by
    intro past future heq
    have hall : Guarded p.effects := Guarded.flatMap h
    cases future with
    | nil =>
      rw [List.append_nil] at heq
      rw [← heq]
      rw [hall.uncheckedAfter_eq]
      simp
    | cons effect future => exact (hall.placed heq).card_le_one
  disable := by
    intro past before c after hdoes
    obtain ⟨hpast, hoff, htail⟩ := hdoes.placed h
    exact ⟨hpast.trans hoff, htail⟩
  destroy := by
    intro past before c after hdoes
    obtain ⟨_, _, hplaced⟩ := hdoes.placed h
    exact hplaced
  enable := by
    intro past before c after hdoes
    obtain ⟨_, _, hplaced⟩ := hdoes.placed h
    exact hplaced
  define := by
    intro past before c after hdoes
    obtain ⟨hpast, hoff⟩ := hdoes.placed h
    exact hpast.trans hoff
  boundary := by
    intro groups rest heq
    apply Guarded.uncheckedAfter_eq
    apply Guarded.flatMap
    intro group hgroup
    apply h
    rw [heq]
    simp [hgroup]

theorem ChangeSet.compileWith_guardsKeys {lookup : Lookup} {options : Options} {cs : ChangeSet}
    {plan : Plan} (h : cs.compileWith lookup options = .ok plan) : plan.GuardsKeys := by
  apply Plan.guardsKeys_of_guarded
  intro group hgroup
  exact guarded_groups h hgroup

theorem blogChanges_guardsKeys :
    ∃ plan, blogChanges.compileWith blogRegistry.lookup {} = .ok plan ∧ plan.GuardsKeys := by
  obtain ⟨plan, h⟩ := exists_blogPlan
  exact ⟨plan, h, ChangeSet.compileWith_guardsKeys h⟩

end SchemaMigration
