import SchemaMigration.NameMap.Basic
import SchemaMigration.Proofs.Json.Yield
import Mathlib.Data.Finset.Card

/-!
This module contains what a map comes to after any number of insertions: its names are in the order
in which they first came, each with the value that came last. A map that was read is as if its
entries had been inserted one after the other.
-/

namespace SchemaMigration

open Json

namespace NameMap

variable {α : Type}

theorem lookup_cons_eq_ite (entry : String × α) (entries : List (String × α)) (name : String) :
    (entry :: entries).lookup name =
      if name = entry.1 then some entry.2 else entries.lookup name := by
  rw [List.lookup_cons]
  by_cases h : name = entry.1
  . simp [h]
  . have hbeq : (name == entry.1) = false := by simpa using h
    simp [hbeq, h]

theorem lookup_of_mem {entries : List (String × α)} (h : (entries.map (·.1)).Nodup)
    {entry : String × α} (hentry : entry ∈ entries) : entries.lookup entry.1 = some entry.2 := by
  induction entries with
  | nil => contradiction
  | cons first entries ih =>
    rw [List.map_cons, List.nodup_cons] at h
    rw [lookup_cons_eq_ite]
    split
    . next hname =>
      cases List.mem_cons.mp hentry with
      | inl heq => rw [heq]
      | inr hmem =>
        apply absurd _ h.1
        rw [← hname]
        exact List.mem_map_of_mem hmem
    . next hname =>
      apply ih h.2
      cases List.mem_cons.mp hentry with
      | inl heq => exact absurd (by rw [heq]) hname
      | inr hmem => exact hmem

section Insert

variable (map : NameMap α) (name : String) (value : α)

theorem names_insert :
    (map.insert name value).names =
      if name ∈ map.names then map.names else map.names ++ [name] := by
  unfold names insert
  induction map.entries with
  | nil => rfl
  | cons entry entries ih =>
    unfold insert.go
    split
    . next hname => simp [hname]
    . next hname =>
      simp only [List.map_cons, List.mem_cons, Ne.symm hname, false_or, ih]
      split <;> rfl

theorem get?_insert (other : String) :
    (map.insert name value).get? other = if other = name then some value else map.get? other := by
  unfold get? insert
  induction map.entries with
  | nil => exact lookup_cons_eq_ite _ _ _
  | cons entry entries ih =>
    unfold insert.go
    split
    . next hname =>
      rw [lookup_cons_eq_ite, lookup_cons_eq_ite]
      split <;> simp_all
    . next hname =>
      rw [lookup_cons_eq_ite, lookup_cons_eq_ite, ih]
      split <;> simp_all

-- An insertion leaves what is listed under another name where it is.
theorem getElem?_insert_of_ne {other : String} (h : other ≠ name) (i : Nat) (v : α) :
    (map.insert name value).entries[i]? = some (other, v) ↔ map.entries[i]? = some (other, v) := by
  unfold insert
  generalize map.entries = entries
  induction entries generalizing i with
  | nil => cases i <;> simp [insert.go, Ne.symm h]
  | cons entry entries ih =>
    obtain ⟨n, w⟩ := entry
    unfold insert.go
    split
    . next hname => cases i <;> simp [hname, Ne.symm h]
    . cases i with
      | zero => rfl
      | succ i => exact ih i

variable {map name} in
theorem insert_eq_append (h : name ∉ map.names) :
    map.insert name value = ⟨map.entries ++ [(name, value)]⟩ := by
  unfold insert names at *
  congr 1
  generalize map.entries = entries at h
  induction entries with
  | nil => rfl
  | cons entry entries ih =>
    rw [List.map_cons, List.mem_cons, not_or] at h
    unfold insert.go
    rw [if_neg (Ne.symm h.1), ih h.2]
    rfl

end Insert

def insertAll (map : NameMap α) (entries : List (String × α)) : NameMap α :=
  entries.foldl (fun map entry => map.insert entry.1 entry.2) map

def IsLast (history : List (String × α)) (name : String) (value : α) : Prop :=
  ∃ before after, history = before ++ (name, value) :: after ∧ name ∉ after.map (·.1)

theorem isLast_append {history : List (String × α)} {name other : String} {value v : α} :
    IsLast (history ++ [(name, value)]) other v ↔
      if other = name then value = v else IsLast history other v := by
  unfold IsLast
  constructor
  . rintro ⟨before, after, heq, hafter⟩
    rcases List.eq_nil_or_concat after with rfl | ⟨after, last, rfl⟩
    . obtain ⟨rfl, hlast⟩ := List.append_inj' heq rfl
      simp_all
    . rw [List.concat_eq_append, ← List.cons_append, ← List.append_assoc] at heq
      obtain ⟨rfl, hlast⟩ := List.append_inj' heq rfl
      rw [List.concat_eq_append, ← List.singleton_inj.mp hlast] at hafter
      simp only [List.map_append, List.mem_append, not_or, List.map_singleton,
        List.mem_singleton] at hafter
      rw [if_neg hafter.2]
      exact ⟨before, after, rfl, hafter.1⟩
  . split
    . next hname =>
      rintro rfl
      rw [hname]
      exact ⟨history, [], rfl, by simp⟩
    . next hname =>
      rintro ⟨before, after, rfl, hafter⟩
      refine ⟨before, after ++ [(name, value)], by simp, ?_⟩
      simp_all

structure Lists (map : NameMap α) (history : List (String × α)) : Prop where
  mem : ∀ name, name ∈ map.names ↔ name ∈ history.map (·.1)
  order : map.names.Pairwise fun n n' =>
    (history.map (·.1)).idxOf n < (history.map (·.1)).idxOf n'
  get? : ∀ name value, map.get? name = some value ↔ IsLast history name value

namespace Lists

variable {map : NameMap α} {history : List (String × α)}

theorem nodup (h : map.Lists history) : map.names.Nodup := by
  apply h.order.imp
  rintro n _ hlt rfl
  exact Nat.lt_irrefl _ hlt

theorem empty : (NameMap.empty : NameMap α).Lists [] where
  mem := by simp [names]
  order := .nil
  get? := by simp [NameMap.get?, IsLast]

theorem insert (h : map.Lists history) (name : String) (value : α) :
    (map.insert name value).Lists (history ++ [(name, value)]) where
  mem := by
    intro n
    rw [names_insert, List.map_append, List.mem_append, ← h.mem]
    split
    . next hname => simp_all
    . simp
  order := by
    have hidx : ∀ n ∈ map.names, ((history ++ [(name, value)]).map (·.1)).idxOf n =
        (history.map (·.1)).idxOf n := by
      intro n hn
      rw [List.map_append, List.idxOf_append_of_mem ((h.mem n).mp hn)]
    have hbefore : map.names.Pairwise fun n n' =>
        ((history ++ [(name, value)]).map (·.1)).idxOf n <
          ((history ++ [(name, value)]).map (·.1)).idxOf n' := by
      apply h.order.imp_of_mem
      intro n n' hn hn' hlt
      rw [hidx n hn, hidx n' hn']
      exact hlt
    rw [names_insert]
    split
    . exact hbefore
    . next hname =>
      rw [List.pairwise_append]
      refine ⟨hbefore, by simp, ?_⟩
      intro n hn n' hn'
      rw [List.mem_singleton] at hn'
      rw [hidx n hn, hn', List.map_append, List.idxOf_append_of_notMem]
      . have hlt := List.idxOf_lt_length_of_mem ((h.mem n).mp hn)
        omega
      . rwa [← h.mem]
  get? := by
    intro n v
    rw [get?_insert, isLast_append, ← h.get?]
    split <;> simp

theorem size_eq (h : map.Lists history) :
    map.size = (history.map (·.1)).toFinset.card := by
  rw [size_eq_length_names, ← List.toFinset_card_of_nodup h.nodup]
  congr 1
  ext name
  rw [List.mem_toFinset, List.mem_toFinset]
  exact h.mem name

theorem get?_eq_none_iff (h : map.Lists history) (name : String) :
    map.get? name = none ↔ name ∉ history.map (·.1) := by
  rw [← h.mem, NameMap.get?, names, List.lookup_eq_none_iff]
  grind

theorem of_nodup {entries : List (String × α)} (h : (entries.map (·.1)).Nodup) :
    (⟨entries⟩ : NameMap α).Lists entries := by
  induction entries using List.reverseRecOn with
  | nil => exact empty
  | append_singleton entries entry ih =>
    rw [List.map_append, List.nodup_append] at h
    have hnew : entry.1 ∉ (⟨entries⟩ : NameMap α).names := by
      intro hmem
      exact h.2.2 entry.1 hmem entry.1 (by simp) rfl
    have hinsert := (ih h.1).insert entry.1 entry.2
    rwa [insert_eq_append entry.2 hnew] at hinsert

theorem insertAll (h : map.Lists history) (entries : List (String × α)) :
    (map.insertAll entries).Lists (history ++ entries) := by
  induction entries generalizing map history with
  | nil => rwa [List.append_nil]
  | cons entry entries ih =>
    rw [List.append_cons]
    exact ih (h.insert entry.1 entry.2)

theorem entries_eq (h : map.Lists history) :
    map.entries = map.names.filterMap fun name => (map.get? name).map (name, ·) := by
  have hnames := h.nodup
  unfold names at hnames ⊢
  have hself : ∀ entry ∈ map.entries,
      (map.get? entry.1).map (entry.1, ·) = some entry := by
    intro entry hentry
    rw [NameMap.get?, lookup_of_mem hnames hentry]
    rfl
  rw [List.filterMap_map]
  calc map.entries = map.entries.filterMap some := List.filterMap_some.symm
    _ = map.entries.filterMap fun entry => (map.get? entry.1).map (entry.1, ·) :=
      List.filterMap_congr fun entry hentry => (hself entry hentry).symm

end Lists

inductive Start : NameMap α → Prop where
  | empty : Start empty
  | read {read : Reader α} {depth : Nat} {cs rest : List Char} {map : NameMap α}
      (h : NameMap.reader read depth cs = .ok (map, rest)) : Start map

theorem Start.lists {map : NameMap α} (h : map.Start) : map.Lists map.entries := by
  cases h with
  | empty => exact .empty
  | @read read _ _ _ _ h =>
    have hyields : read.Yields fun _ _ => True := ⟨fun _ => trivial⟩
    obtain ⟨_, _, hnames, _⟩ := hyields.nameMap.holds h
    exact .of_nodup hnames

/--
A map that is told by the insertions that led to it. Its entries are listed in the order of first
insertion, and inserting under one name changes nothing under the others.
-/
structure Follows (map : NameMap α) (history : List (String × α)) : Prop
    extends Lists map history where
  nodup : map.names.Nodup
  absent : ∀ name, map.get? name = none ↔ name ∉ history.map (·.1)
  size : map.size = (history.map (·.1)).toFinset.card
  entries : map.entries = map.names.filterMap fun name => (map.get? name).map (name, ·)
  again : ∀ name ∈ map.names, ∀ value, (map.insert name value).names = map.names
  others : ∀ name value, ∀ other ≠ name,
    (map.insert name value).get? other = map.get? other ∧
      ∀ (i : Nat) v,
        (map.insert name value).entries[i]? = some (other, v) ↔ map.entries[i]? = some (other, v)

theorem insertAll_follows {start : NameMap α} (h : start.Start) (entries : List (String × α)) :
    (start.insertAll entries).Follows (start.entries ++ entries) := by
  have hlists := h.lists.insertAll entries
  refine ⟨hlists, hlists.nodup, hlists.get?_eq_none_iff, hlists.size_eq, hlists.entries_eq, ?_, ?_⟩
  . intro name hname value
    rw [names_insert, if_pos hname]
  . intro name value other hother
    refine ⟨?_, getElem?_insert_of_ne _ name value hother⟩
    rw [get?_insert, if_neg hother]

-- One name of the document comes again, a new one is added.
theorem colors_follow :
    (⟨[("sea", "blue"), ("sand", "gray")]⟩ : NameMap String).Start ∧
    ((⟨[("sea", "blue"), ("sand", "gray")]⟩ : NameMap String).insertAll
      [("sand", "red"), ("sky", "blue"), ("sand", "gold")]).names = ["sea", "sand", "sky"] ∧
    ((⟨[("sea", "blue"), ("sand", "gray")]⟩ : NameMap String).insertAll
      [("sand", "red"), ("sky", "blue"), ("sand", "gold")]).get? "sand" = some "gold" := by
  have hstart : (⟨[("sea", "blue"), ("sand", "gray")]⟩ : NameMap String).Start :=
    @Start.read _ Reader.string maxDepth
      "\x7b\"sea\":\"blue\",\"sand\":\"gray\"\x7d".toList [] _ rfl
  have h := insertAll_follows hstart [("sand", "red"), ("sky", "blue"), ("sand", "gold")]
  refine ⟨hstart, rfl, ?_⟩
  rw [h.get?]
  exact ⟨[("sea", "blue"), ("sand", "gray"), ("sand", "red"), ("sky", "blue")], [], rfl, by simp⟩

end NameMap

end SchemaMigration
