import SchemaMigration.Proofs.Compile
import SchemaMigration.Proofs.Layout

/-!
This module contains what the lines of a compiled plan tell about it: everything. Blank lines can be
left out, since the passes of a compiled plan follow from its groups, and the groups can be read off
the other lines one after the other.
-/

namespace SchemaMigration

def Line.isBlank : Line → Bool
  | .blank => true
  | _ => false

theorem filter_separator (separated : Bool) : (separator separated).filter (!·.isBlank) = [] := by
  cases separated <;> rfl

theorem Group.filter_lines (g : Group) : g.lines.filter (!·.isBlank) = g.lines := by
  rw [List.filter_eq_self]
  intro l hl
  cases g <;> simp only [lines, Block.body, List.mem_cons, List.mem_append, List.mem_map,
    List.not_mem_nil, or_false] at hl
  case createTable b => obtain rfl | ⟨_, _, rfl⟩ | rfl := hl <;> rfl
  case alterTable b => obtain rfl | ⟨_, _, rfl⟩ | rfl := hl <;> rfl
  case calls list =>
    obtain ⟨_, _, rfl⟩ := hl
    rfl
  case comment text =>
    subst hl
    rfl

theorem Plan.filter_lines (p : Plan) :
    p.lines.filter (!·.isBlank) = p.groups.flatMap Group.lines := by
  have hpass : ∀ pass : Pass, pass.lines.filter (!·.isBlank) = pass.groups.flatMap Group.lines := by
    intro pass
    unfold Pass.lines
    rw [filter_intercalate (filter_separator _), List.flatMap_map]
    simp only [Group.filter_lines]
  unfold lines groups
  rw [filter_intercalate (filter_separator _), List.flatMap_map, List.flatMap_assoc]
  simp only [hpass]

theorem eq_blank_of_mem_separator {separated : Bool} {l : Line} (h : l ∈ separator separated) :
    l = .blank := by
  cases separated <;> simp_all [separator]

theorem Plan.mem_lines {p : Plan} {l : Line} (h : l ∈ p.lines) :
    l = .blank ∨ ∃ g ∈ p.groups, l ∈ g.lines := by
  cases mem_intercalate h with
  | inl h => exact .inl (eq_blank_of_mem_separator h)
  | inr h =>
    obtain ⟨_, hpass, h⟩ := h
    rw [List.mem_map] at hpass
    obtain ⟨pass, hpass, rfl⟩ := hpass
    cases mem_intercalate h with
    | inl h => exact .inl (eq_blank_of_mem_separator h)
    | inr h =>
      obtain ⟨_, hg, h⟩ := h
      rw [List.mem_map] at hg
      obtain ⟨g, hg, rfl⟩ := hg
      exact .inr ⟨g, List.mem_flatMap.mpr ⟨pass, hpass, hg⟩, h⟩

-- Calls on connections come in threes: nothing else says where one list of them ends.
def Group.Counted (g : Group) : Prop := ∀ list, g = .calls list → list.length = 3

theorem delimited_statement :
    Delimited (fun _ : Statement => True) (fun _ => True) fun s => [Line.statement s] where
  follows := by simp
  cancel := by simp

theorem body_cancel {statements statements' : List Statement} {rest rest' : List Line}
    (h : statements.map Line.statement ++ Line.close :: rest =
      statements'.map Line.statement ++ Line.close :: rest') :
    statements = statements' ∧ rest = rest' := by
  rw [List.map_eq_flatMap, List.map_eq_flatMap] at h
  obtain ⟨hstatements, hrest⟩ := delimited_statement.flatMap_cancel (by simp) (by simp) trivial
    trivial (by simp) (by simp) h
  exact ⟨hstatements, List.tail_eq_of_cons_eq hrest⟩

theorem block_cancel {b b' : Block} (hconnection : b.connection = b'.connection)
    (htable : b.table = b'.table) {rest rest' : List Line}
    (h : b.body ++ rest = b'.body ++ rest') : b = b' ∧ rest = rest' := by
  simp only [Block.body, List.append_assoc, List.singleton_append] at h
  obtain ⟨hstatements, hrest⟩ := body_cancel h
  cases b
  cases b'
  simp_all

theorem calls_cancel {list list' : List ConnectionCall} (h : list.length = list'.length)
    {rest rest' : List Line}
    (hlines : list.map Line.call ++ rest = list'.map Line.call ++ rest') :
    list = list' ∧ rest = rest' := by
  obtain ⟨hcalls, hrest⟩ := List.append_inj hlines (by simpa using h)
  refine ⟨?_, hrest⟩
  apply List.map_injective_iff.mpr _ hcalls
  intro c c' heq
  simpa using heq

theorem Group.lines_cancel {g g' : Group} {rest rest' : List Line} (hg : g.Counted)
    (hg' : g'.Counted) (h : g.lines ++ rest = g'.lines ++ rest') : g = g' ∧ rest = rest' := by
  cases g <;> cases g'
  case createTable.createTable b b' =>
    simp only [lines, List.cons_append, List.cons.injEq, Line.create.injEq] at h
    obtain ⟨rfl, hrest⟩ := block_cancel h.1.1 h.1.2 h.2
    exact ⟨rfl, hrest⟩
  case alterTable.alterTable b b' =>
    simp only [lines, List.cons_append, List.cons.injEq, Line.alter.injEq] at h
    obtain ⟨rfl, hrest⟩ := block_cancel h.1.1 h.1.2 h.2
    exact ⟨rfl, hrest⟩
  case calls.calls list list' =>
    have hlength : list.length = list'.length := by
      rw [hg list rfl, hg' list' rfl]
    obtain ⟨rfl, hrest⟩ := calls_cancel hlength h
    exact ⟨rfl, hrest⟩
  case comment.comment => simpa [lines] using h
  case calls.createTable list _ | calls.alterTable list _ | calls.comment list _ =>
    have hlength := hg list rfl
    cases list <;> simp [lines] at h hlength
  case createTable.calls _ list | alterTable.calls _ list | comment.calls _ list =>
    have hlength := hg' list rfl
    cases list <;> simp [lines] at h hlength
  all_goals simp [lines] at h

theorem Group.lines_ne_nil {g : Group} (hg : g.Counted) : g.lines ≠ [] := by
  cases g with
  | calls list =>
    have hlength := hg list rfl
    cases list <;> simp [lines] at hlength ⊢
  | createTable b => simp [lines]
  | alterTable b => simp [lines]
  | comment text => simp [lines]

theorem Group.delimited_lines : Delimited Counted (fun _ => True) lines where
  follows := by simp
  cancel hg hg' _ _ h := lines_cancel hg hg' h

theorem groups_eq_of_lines {gs gs' : List Group} (hgs : ∀ g ∈ gs, g.Counted)
    (hgs' : ∀ g ∈ gs', g.Counted) (h : gs.flatMap Group.lines = gs'.flatMap Group.lines) :
    gs = gs' := by
  have hend : ∀ {g : Group} {tail : List Line}, g.Counted → [] ≠ g.lines ++ tail := by
    intro g tail hg hnil
    have hlines := (List.append_eq_nil_iff.mp hnil.symm).1
    exact Group.lines_ne_nil hg hlines
  rw [← List.append_nil (gs.flatMap _), ← List.append_nil (gs'.flatMap _)] at h
  exact (Group.delimited_lines.flatMap_cancel hgs hgs' trivial trivial hend hend h).1

def Group.isCreation : Group → Bool
  | .createTable _ => true
  | _ => false

def Group.isAlteration : Group → Bool
  | .alterTable _ => true
  | _ => false

def Group.isCalls : Group → Bool
  | .calls _ => true
  | _ => false

/--
The groups of the four passes of a compiled plan. Foreign keys are added by alterations, and the
comment in front of them tells these from the updates before them.
-/
structure PassGroups where
  created : List Group
  updated : List Group
  keys : List Group
  deleted : List Group

namespace PassGroups

structure Compiled (p : PassGroups) : Prop where
  created : ∀ g ∈ p.created, g.isCreation
  updated : ∀ g ∈ p.updated, g.isAlteration
  keys : ∀ g ∈ p.keys, g.isCreation = false ∧ g.isCalls = false
  keys_head : ∀ g ∈ p.keys.head?, g.isAlteration = false
  deleted : ∀ g ∈ p.deleted, g.isCalls
  counted : ∀ g ∈ p.deleted, g.Counted

def plan (p : PassGroups) : Plan :=
  ⟨[⟨.createdTables, p.created⟩, ⟨.updatedTables, p.updated⟩, ⟨.relationships, p.keys⟩,
    ⟨.deletedTables, p.deleted⟩].filter fun pass => !pass.groups.isEmpty⟩

def all (p : PassGroups) : List Group := p.created ++ (p.updated ++ (p.keys ++ p.deleted))

variable {p p' : PassGroups}

theorem groups_plan (p : PassGroups) : p.plan.groups = p.all := by
  unfold plan all
  rw [ChangeSet.groups_filter_passes]
  simp

theorem counted_of_compiled (hp : p.Compiled) : ∀ g ∈ p.all, g.Counted := by
  intro g hg
  unfold all at hg
  rw [List.mem_append, List.mem_append, List.mem_append] at hg
  cases g with
  | calls list =>
    obtain hg | hg | hg | hg := hg
    . exact absurd (hp.created _ hg) (by simp [Group.isCreation])
    . exact absurd (hp.updated _ hg) (by simp [Group.isAlteration])
    . exact absurd (hp.keys _ hg).2 (by simp [Group.isCalls])
    . exact hp.counted _ hg
  | _ => simp [Group.Counted]

theorem filter_isCreation (hp : p.Compiled) : p.all.filter Group.isCreation = p.created := by
  have hupdated : p.updated.filter Group.isCreation = [] := by
    rw [List.filter_eq_nil_iff]
    intro g hg
    have := hp.updated g hg
    cases g <;> simp_all [Group.isCreation, Group.isAlteration]
  have hkeys : p.keys.filter Group.isCreation = [] := by
    rw [List.filter_eq_nil_iff]
    intro g hg
    simp [(hp.keys g hg).1]
  have hdeleted : p.deleted.filter Group.isCreation = [] := by
    rw [List.filter_eq_nil_iff]
    intro g hg
    have := hp.deleted g hg
    cases g <;> simp_all [Group.isCreation, Group.isCalls]
  unfold all
  simp only [List.filter_append, hupdated, hkeys, hdeleted, List.append_nil]
  exact List.filter_eq_self.mpr hp.created

theorem filter_isCalls (hp : p.Compiled) : p.all.filter Group.isCalls = p.deleted := by
  have hcreated : p.created.filter Group.isCalls = [] := by
    rw [List.filter_eq_nil_iff]
    intro g hg
    have := hp.created g hg
    cases g <;> simp_all [Group.isCreation, Group.isCalls]
  have hupdated : p.updated.filter Group.isCalls = [] := by
    rw [List.filter_eq_nil_iff]
    intro g hg
    have := hp.updated g hg
    cases g <;> simp_all [Group.isCalls, Group.isAlteration]
  have hkeys : p.keys.filter Group.isCalls = [] := by
    rw [List.filter_eq_nil_iff]
    intro g hg
    simp [(hp.keys g hg).2]
  unfold all
  simp only [List.filter_append, hcreated, hupdated, hkeys, List.nil_append]
  exact List.filter_eq_self.mpr hp.deleted

theorem takeWhile_isAlteration (hp : p.Compiled) :
    (p.updated ++ p.keys).takeWhile Group.isAlteration = p.updated := by
  have hkeys : p.keys.takeWhile Group.isAlteration = [] := by
    cases hcases : p.keys with
    | nil => rfl
    | cons g gs =>
      have hhead := hp.keys_head g (by simp [hcases])
      simp [hhead]
  rw [List.takeWhile_append_of_pos hp.updated, hkeys, List.append_nil]

theorem eq_of_all (hp : p.Compiled) (hp' : p'.Compiled) (h : p.all = p'.all) : p = p' := by
  have hcreated : p.created = p'.created := by
    rw [← filter_isCreation hp, ← filter_isCreation hp', h]
  have hdeleted : p.deleted = p'.deleted := by
    rw [← filter_isCalls hp, ← filter_isCalls hp', h]
  unfold all at h
  rw [hcreated, hdeleted, List.append_cancel_left_eq] at h
  rw [← List.append_assoc, ← List.append_assoc, List.append_cancel_right_eq] at h
  have hupdated : p.updated = p'.updated := by
    rw [← takeWhile_isAlteration hp, ← takeWhile_isAlteration hp', h]
  rw [hupdated, List.append_cancel_left_eq] at h
  cases p
  cases p'
  simp_all

end PassGroups

namespace ChangeSet

variable {lookup : Lookup} {options : Options} {cs : ChangeSet} {plan : Plan}

theorem isAlteration_of_relationshipGroup {t : TableChange} {name : String} {g : Group}
    (h : t.relationshipGroup lookup name = .ok g) : g.isAlteration := by
  obtain ⟨_, _, rfl⟩ := TableChange.relationshipGroup_eq_ok_iff.mp h
  rfl

theorem exists_passGroups (h : cs.compileWith lookup options = .ok plan) :
    ∃ p : PassGroups, p.Compiled ∧ plan = p.plan := by
  obtain ⟨_, _, keys, hkeys, hplan⟩ := compileWith_eq_ok_iff.mp h
  refine ⟨⟨cs.creationGroups, cs.updateGroups, keys, cs.deletionGroups⟩, ?_, hplan⟩
  obtain ⟨keyGroups, hforall, hkeys⟩ := relationshipGroups_eq_ok_iff.mp hkeys
  have halter : ∀ g ∈ keyGroups, g.isAlteration := by
    intro g hg
    obtain ⟨entry, _, hentry⟩ := exists_of_forall₂_of_mem hforall hg
    exact isAlteration_of_relationshipGroup hentry
  constructor
  . intro g hg
    obtain ⟨entry, _, rfl⟩ := List.mem_map.mp hg
    rfl
  . intro g hg
    obtain ⟨entry, _, rfl⟩ := List.mem_map.mp hg
    rfl
  . intro g hg
    rw [hkeys] at hg
    split at hg
    . contradiction
    . cases List.mem_cons.mp hg with
      | inl hg => simp [hg, Group.isCreation, Group.isCalls]
      | inr hg =>
        have hg := halter g hg
        cases g <;> simp_all [Group.isCreation, Group.isCalls, Group.isAlteration]
  . intro g hg
    rw [hkeys] at hg
    split at hg
    . contradiction
    . rw [List.head?_cons, Option.mem_some_iff] at hg
      rw [← hg]
      rfl
  . intro g hg
    obtain ⟨entry, _, rfl⟩ := List.mem_map.mp hg
    rfl
  . intro g hg
    obtain ⟨entry, _, rfl⟩ := List.mem_map.mp hg
    simp [Group.Counted, deletionCalls]

end ChangeSet

theorem Plan.eq_of_lines {lookup lookup' : Lookup} {options options' : Options}
    {cs cs' : ChangeSet} {plan plan' : Plan} (h : cs.compileWith lookup options = .ok plan)
    (h' : cs'.compileWith lookup' options' = .ok plan') (hlines : plan.lines = plan'.lines) :
    plan = plan' := by
  obtain ⟨p, hp, rfl⟩ := ChangeSet.exists_passGroups h
  obtain ⟨p', hp', rfl⟩ := ChangeSet.exists_passGroups h'
  have hgroups : p.all.flatMap Group.lines = p'.all.flatMap Group.lines := by
    rw [← p.groups_plan, ← p'.groups_plan]
    rw [← Plan.filter_lines, ← Plan.filter_lines, hlines]
  have hall := groups_eq_of_lines (PassGroups.counted_of_compiled hp)
    (PassGroups.counted_of_compiled hp') hgroups
  rw [PassGroups.eq_of_all hp hp' hall]

end SchemaMigration
