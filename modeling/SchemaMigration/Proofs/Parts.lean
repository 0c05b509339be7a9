import Mathlib.Data.List.Basic

/-!
This module contains the theory of lists that are put together from parts: what is in them, and when
equal lists have equal parts.
-/

namespace SchemaMigration

variable {α γ : Type}

theorem intercalate_cons (separator x : List γ) (xs : List (List γ)) :
    separator.intercalate (x :: xs) = x ++ xs.flatMap (separator ++ ·) := by
  induction xs generalizing x with
  | nil => simp
  | cons y xs ih =>
    rw [List.intercalate_cons_cons, ih]
    simp

theorem intercalate_append {separator : List γ} {xs : List (List γ)} (h : xs ≠ []) :
    separator.intercalate xs ++ separator = xs.flatMap (· ++ separator) := by
  induction xs with
  | nil => contradiction
  | cons x xs ih =>
    cases xs with
    | nil => simp
    | cons y xs =>
      rw [List.intercalate_cons_cons, List.append_assoc, List.append_assoc]
      rw [ih (by simp)]
      simp

theorem mem_intercalate {separator : List γ} {xs : List (List γ)} {a : γ}
    (h : a ∈ separator.intercalate xs) : a ∈ separator ∨ ∃ x ∈ xs, a ∈ x := by
  cases xs with
  | nil => simp at h
  | cons x xs =>
    rw [intercalate_cons, List.mem_append, List.mem_flatMap] at h
    cases h with
    | inl h => exact .inr ⟨x, by simp, h⟩
    | inr h =>
      obtain ⟨y, hy, h⟩ := h
      rw [List.mem_append] at h
      cases h with
      | inl h => exact .inl h
      | inr h => exact .inr ⟨y, by simp [hy], h⟩

theorem filter_intercalate {q : γ → Bool} {separator : List γ} (h : separator.filter q = [])
    (xs : List (List γ)) : (separator.intercalate xs).filter q = xs.flatMap (·.filter q) := by
  cases xs with
  | nil => simp
  | cons x xs =>
    rw [intercalate_cons, List.filter_append, List.filter_flatMap]
    simp [h]

theorem until_cancel {c : γ} {xs ys rest rest' : List γ} (hxs : c ∉ xs) (hys : c ∉ ys)
    (h : xs ++ c :: rest = ys ++ c :: rest') : xs = ys ∧ rest = rest' := by
  induction xs generalizing ys with
  | nil =>
    cases ys with
    | nil => simpa using h
    | cons y ys =>
      rw [List.nil_append, List.cons_append, List.cons.injEq] at h
      simp [h.1] at hys
  | cons x xs ih =>
    cases ys with
    | nil =>
      rw [List.nil_append, List.cons_append, List.cons.injEq] at h
      simp [h.1] at hxs
    | cons y ys =>
      rw [List.cons_append, List.cons_append, List.cons.injEq] at h
      rw [List.mem_cons, not_or] at hxs hys
      obtain ⟨rfl, hrest⟩ := ih hxs.2 hys.2 h.2
      rw [h.1]
      exact ⟨rfl, hrest⟩

-- What begins with one part does not begin with another one, unless one of them begins the other.
theorem dropPrefix?_eq_none [BEq γ] [LawfulBEq γ] {part part' : List γ} (h : ¬part <+: part')
    (h' : ¬part' <+: part) (rest : List γ) : (part' ++ rest).dropPrefix? part = none := by
  rw [Option.eq_none_iff_forall_ne_some]
  intro rest' hread
  obtain ⟨front, hfront, heq⟩ := List.dropPrefix?_eq_some_iff.mp hread
  rw [beq_iff_eq] at heq
  subst heq
  cases List.prefix_or_prefix_of_prefix ⟨rest', hfront.symm⟩ (List.prefix_append part' rest) with
  | inl hprefix => exact h hprefix
  | inr hprefix => exact h' hprefix

/--
Things whose parts can be told apart, as long as only certain lists follow them.
-/
structure Delimited (P : α → Prop) (Follows : List γ → Prop) (part : α → List γ) : Prop where
  follows : ∀ {a rest}, P a → Follows rest → Follows (part a ++ rest)
  cancel : ∀ {a b rest rest'}, P a → P b → Follows rest → Follows rest' →
    part a ++ rest = part b ++ rest' → a = b ∧ rest = rest'

namespace Delimited

variable {P : α → Prop} {Follows : List γ → Prop} {part : α → List γ}

theorem follows_flatMap (hpart : Delimited P Follows part) {as : List α} (has : ∀ a ∈ as, P a)
    {rest : List γ} (hrest : Follows rest) : Follows (as.flatMap part ++ rest) := by
  induction as with
  | nil => exact hrest
  | cons a as ih =>
    rw [List.forall_mem_cons] at has
    rw [List.flatMap_cons, List.append_assoc]
    exact hpart.follows has.1 (ih has.2)

-- The lists behind all the parts must not look like one more part.
theorem flatMap_cancel (hpart : Delimited P Follows part) {as bs : List α} (has : ∀ a ∈ as, P a)
    (hbs : ∀ b ∈ bs, P b) {rest rest' : List γ} (hrest : Follows rest) (hrest' : Follows rest')
    (hend : ∀ {a tail}, P a → rest ≠ part a ++ tail)
    (hend' : ∀ {a tail}, P a → rest' ≠ part a ++ tail)
    (h : as.flatMap part ++ rest = bs.flatMap part ++ rest') : as = bs ∧ rest = rest' := by
  induction as generalizing bs with
  | nil =>
    cases bs with
    | nil => exact ⟨rfl, h⟩
    | cons b bs =>
      rw [List.forall_mem_cons] at hbs
      rw [List.flatMap_nil, List.nil_append, List.flatMap_cons, List.append_assoc] at h
      exact absurd h (hend hbs.1)
  | cons a as ih =>
    rw [List.forall_mem_cons] at has
    cases bs with
    | nil =>
      rw [List.flatMap_nil, List.nil_append, List.flatMap_cons, List.append_assoc] at h
      exact absurd h.symm (hend' has.1)
    | cons b bs =>
      rw [List.forall_mem_cons] at hbs
      rw [List.flatMap_cons, List.flatMap_cons, List.append_assoc, List.append_assoc] at h
      obtain ⟨rfl, htail⟩ := hpart.cancel has.1 hbs.1 (hpart.follows_flatMap has.2 hrest)
        (hpart.follows_flatMap hbs.2 hrest') h
      obtain ⟨rfl, hrest⟩ := ih has.2 hbs.2 htail
      exact ⟨rfl, hrest⟩

end Delimited

end SchemaMigration
