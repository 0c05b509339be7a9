import SchemaMigration.Proofs.Json.Lexeme

/-!
This module contains what is asked of a JSON value whose text is read back, and what is true of the
values that are read: how deep they are nested, how their objects are ordered, and whether they have
floating-point numbers in them.
-/

namespace SchemaMigration.Json

mutual

def height : Json → Nat
  | .array items => itemsHeight items + 1
  | .object members => membersHeight members + 1
  | _ => 0

def itemsHeight : List Json → Nat
  | [] => 0
  | item :: items => max (height item) (itemsHeight items)

def membersHeight : List (String × Json) → Nat
  | [] => 0
  | (_, value) :: members => max (height value) (membersHeight members)

end

@[simp]
theorem height_string (s : String) : (Json.string s).height = 0 := rfl

theorem itemsHeight_le {items : List Json} {n : Nat} :
    itemsHeight items ≤ n ↔ ∀ item ∈ items, item.height ≤ n := by
  induction items with
  | nil => simp [itemsHeight]
  | cons item items ih =>
    rw [itemsHeight, Nat.max_le, ih]
    simp

theorem membersHeight_le {members : List (String × Json)} {n : Nat} :
    membersHeight members ≤ n ↔ ∀ m ∈ members, m.2.height ≤ n := by
  induction members with
  | nil => simp [membersHeight]
  | cons m members ih =>
    rw [membersHeight, Nat.max_le, ih]
    simp

theorem height_array_le {items : List Json} {n : Nat} :
    (Json.array items).height ≤ n + 1 ↔ ∀ item ∈ items, item.height ≤ n := by
  rw [height, Nat.add_le_add_iff_right]
  exact itemsHeight_le

theorem height_object_le {members : List (String × Json)} {n : Nat} :
    (Json.object members).height ≤ n + 1 ↔ ∀ m ∈ members, m.2.height ≤ n := by
  rw [height, Nat.add_le_add_iff_right]
  exact membersHeight_le

theorem not_height_array_le_zero {items : List Json} : ¬ (Json.array items).height ≤ 0 := by
  simp [height]

theorem not_height_object_le_zero {members : List (String × Json)} :
    ¬ (Json.object members).height ≤ 0 := by
  simp [height]

/--
The values of documents: the integers have 64 bits, and the members of an object ascend by key, so
that no key is there twice.
-/
inductive Regular : Json → Prop where
  | null : Regular .null
  | bool (b : Bool) : Regular (.bool b)
  | number {n : Number} (hrange : n.InRange) : Regular (.number n)
  | string (s : String) : Regular (.string s)
  | array {items : List Json} (hitems : ∀ item ∈ items, Regular item) : Regular (.array items)
  | object {members : List (String × Json)} (hsorted : members.Pairwise (·.1 < ·.1))
      (hmembers : ∀ m ∈ members, Regular m.2) : Regular (.object members)

inductive FloatFree : Json → Prop where
  | null : FloatFree .null
  | bool (b : Bool) : FloatFree (.bool b)
  | integer (i : Int) : FloatFree (.number (.integer i))
  | string (s : String) : FloatFree (.string s)
  | array {items : List Json} (hitems : ∀ item ∈ items, FloatFree item) : FloatFree (.array items)
  | object {members : List (String × Json)} (hmembers : ∀ m ∈ members, FloatFree m.2) :
      FloatFree (.object members)

structure Exact (j : Json) : Prop where
  regular : Regular j
  floatFree : FloatFree j

def Reader.addMember (depth : Nat) (members : List (String × Json)) (key : String)
    (cs : List Char) : Except Error (List (String × Json) × List Char) := do
  let (v, rest) ← Reader.value depth (← Reader.colon cs)
  .ok (insertMember key v members, rest)

theorem mem_insertMember {key : String} {value : Json} {members : List (String × Json)}
    {m : String × Json} (h : m ∈ insertMember key value members) :
    m = (key, value) ∨ m ∈ members := by
  induction members with
  | nil =>
    left
    simpa [insertMember] using h
  | cons head members ih =>
    obtain ⟨k, v⟩ := head
    unfold insertMember at h
    split at h
    . rw [List.mem_cons] at h
      cases h with
      | inl h => exact .inl h
      | inr h => exact .inr (by simp [h])
    . split at h
      . rw [List.mem_cons] at h
        exact h
      . rw [List.mem_cons] at h
        cases h with
        | inl h => exact .inr (by simp [h])
        | inr h =>
          cases ih h with
          | inl h => exact .inl h
          | inr h => exact .inr (by simp [h])

theorem sorted_insertMember (key : String) (value : Json) {members : List (String × Json)}
    (hsorted : members.Pairwise (·.1 < ·.1)) :
    (insertMember key value members).Pairwise (·.1 < ·.1) := by
  induction members with
  | nil => simp [insertMember]
  | cons head members ih =>
    obtain ⟨k, v⟩ := head
    rw [List.pairwise_cons] at hsorted
    obtain ⟨hhead, htail⟩ := hsorted
    unfold insertMember
    split
    . next heq =>
      rw [List.pairwise_cons]
      subst heq
      exact ⟨hhead, htail⟩
    . next hne =>
      split
      . next hlt =>
        rw [List.pairwise_cons]
        refine ⟨?_, List.pairwise_cons.mpr ⟨hhead, htail⟩⟩
        intro m hm
        rw [List.mem_cons] at hm
        cases hm with
        | inl hm => simpa [hm] using hlt
        | inr hm => exact String.lt_trans hlt (hhead m hm)
      . next hnlt =>
        have hgt : k < key := by
          rw [String.not_lt] at hnlt
          exact Std.lt_of_le_of_ne hnlt (Ne.symm hne)
        rw [List.pairwise_cons]
        refine ⟨?_, ih htail⟩
        intro m hm
        cases mem_insertMember hm with
        | inl hm => simpa [hm] using hgt
        | inr hm => exact hhead m hm

end SchemaMigration.Json
