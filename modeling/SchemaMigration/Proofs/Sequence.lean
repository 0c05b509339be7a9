import Mathlib.Data.List.Forall2

/-!
This module contains the theory of steps that may fail: what a sequence of them comes to, when a
list of them gets to its end, and which failure stops it if it does not.
-/

namespace SchemaMigration

variable {α β ε : Type}

def fault? : Except ε α → Option ε
  | .error e => some e
  | .ok _ => none

@[simp]
theorem fault?_ok (a : α) : fault? (.ok a : Except ε α) = none := rfl

@[simp]
theorem fault?_error (e : ε) : fault? (.error e : Except ε α) = some e := rfl

section Step

variable {x : Except ε α} {f : α → Except ε β} {b : β} {e : ε}

theorem fault?_eq_some_iff : fault? x = some e ↔ x = .error e := by
  cases x <;> simp

theorem fault?_eq_none_iff : fault? x = none ↔ ∃ a, x = .ok a := by
  cases x <;> simp

theorem fault?_check_eq_none_iff {check : Except ε Unit} :
    fault? check = none ↔ check = .ok () := by
  cases check <;> simp

theorem bind_eq_ok_iff : (x >>= f) = .ok b ↔ ∃ a, x = .ok a ∧ f a = .ok b := by
  cases x <;> simp [bind, Except.bind]

-- The result of a check is known, so what comes after it does not depend on it.
theorem check_bind_eq_ok_iff {check : Except ε Unit} {f : Unit → Except ε β} :
    (check >>= f) = .ok b ↔ check = .ok () ∧ f () = .ok b := by
  cases check <;> simp [bind, Except.bind]

theorem fault?_bind_ok (g : α → β) : fault? (x >>= fun a => .ok (g a)) = fault? x := by
  cases x <;> rfl

theorem fault?_check_bind {check : Except ε Unit} {f : Unit → Except ε β} :
    fault? (check >>= f) = (fault? check).or (fault? (f ())) := by
  cases check <;> rfl

theorem mapM_eq_ok_iff {xs : List α} {ys : List β} :
    xs.mapM f = .ok ys ↔ List.Forall₂ (fun x y => f x = .ok y) xs ys := by
  induction xs generalizing ys with
  | nil => simp [pure, Except.pure, eq_comm]
  | cons x xs ih =>
    rw [List.mapM_cons]
    simp only [bind_eq_ok_iff, ih, List.forall₂_cons_left_iff, pure, Except.pure, Except.ok.injEq]
    constructor
    . intro h
      obtain ⟨y, hy, zs, hzs, rfl⟩ := h
      exact ⟨y, zs, hy, hzs, rfl⟩
    . intro h
      obtain ⟨y, zs, hy, hzs, rfl⟩ := h
      exact ⟨y, hy, zs, hzs, rfl⟩

theorem fault?_mapM (xs : List α) : fault? (xs.mapM f) = xs.findSome? fun x => fault? (f x) := by
  induction xs with
  | nil => rfl
  | cons x xs ih =>
    rw [List.mapM_cons, List.findSome?_cons]
    cases hx : f x with
    | error e => rfl
    | ok y =>
      rw [fault?_ok]
      rw [← ih]
      apply fault?_bind_ok

theorem mapM_congr {g : α → Except ε β} {xs : List α} (h : ∀ x ∈ xs, f x = g x) :
    xs.mapM f = xs.mapM g := by
  induction xs with
  | nil => rfl
  | cons x xs ih =>
    rw [List.mapM_cons, List.mapM_cons]
    rw [h x (by simp)]
    rw [ih fun y hy => h y (by simp [hy])]

theorem foldlM_congr {f g : β → α → Except ε β} {xs : List α} (h : ∀ x ∈ xs, ∀ b, f b x = g b x)
    (b : β) : xs.foldlM f b = xs.foldlM g b := by
  induction xs generalizing b with
  | nil => rfl
  | cons x xs ih =>
    rw [List.foldlM_cons, List.foldlM_cons]
    rw [h x (by simp)]
    congr 1
    funext b'
    exact ih (fun y hy => h y (by simp [hy])) b'

theorem exists_of_foldlM_eq_ok {g : β → α → Except ε β} {xs : List α} {b c : β}
    (h : xs.foldlM g b = .ok c) : ∀ x ∈ xs, ∃ b' c', g b' x = .ok c' := by
  induction xs generalizing b with
  | nil => simp
  | cons x xs ih =>
    rw [List.foldlM_cons, bind_eq_ok_iff] at h
    obtain ⟨b', hb', h⟩ := h
    rw [List.forall_mem_cons]
    exact ⟨⟨b, b', hb'⟩, ih h⟩

end Step

theorem forall₂_append_left {R : α → β → Prop} {xs xs' : List α} {ys : List β}
    (h : List.Forall₂ R (xs ++ xs') ys) :
    ∃ zs zs', ys = zs ++ zs' ∧ List.Forall₂ R xs zs ∧ List.Forall₂ R xs' zs' := by
  induction xs generalizing ys with
  | nil => exact ⟨[], ys, rfl, .nil, h⟩
  | cons x xs ih =>
    cases h with
    | cons hR h =>
      obtain ⟨zs, zs', rfl, hzs, hzs'⟩ := ih h
      exact ⟨_ :: zs, zs', rfl, .cons hR hzs, hzs'⟩

theorem exists_of_forall₂_of_mem {R : α → β → Prop} {xs : List α} {ys : List β}
    (h : List.Forall₂ R xs ys) {y : β} (hy : y ∈ ys) : ∃ x ∈ xs, R x y := by
  induction h with
  | nil => simp at hy
  | @cons x z xs ys hR _ ih =>
    cases List.mem_cons.mp hy with
    | inl heq =>
      rw [heq]
      exact ⟨x, by simp, hR⟩
    | inr hmem =>
      obtain ⟨w, hw, hRw⟩ := ih hmem
      exact ⟨w, by simp [hw], hRw⟩

theorem exists_forall₂ {R : α → β → Prop} {ys : List β} (h : ∀ y ∈ ys, ∃ x, R x y) :
    ∃ xs, List.Forall₂ R xs ys := by
  induction ys with
  | nil => exact ⟨[], .nil⟩
  | cons y ys ih =>
    rw [List.forall_mem_cons] at h
    obtain ⟨⟨x, hx⟩, hys⟩ := h
    obtain ⟨xs, hxs⟩ := ih hys
    exact ⟨x :: xs, .cons hx hxs⟩

theorem map_eq_map_of_forall₂ {γ : Type} {R : α → β → Prop} {f : α → γ} {g : β → γ} {xs : List α}
    {ys : List β} (h : List.Forall₂ R xs ys) (hR : ∀ x y, R x y → f x = g y) :
    xs.map f = ys.map g := by
  rw [← List.forall₂_eq_eq_eq, List.forall₂_map_left_iff, List.forall₂_map_right_iff]
  exact h.imp hR

theorem forall₂_trans {R : α → α → Prop} (hR : ∀ x y z, R x y → R y z → R x z)
    {xs ys zs : List α} (h : List.Forall₂ R xs ys) (h' : List.Forall₂ R ys zs) :
    List.Forall₂ R xs zs := by
  induction h generalizing zs with
  | nil => exact h'
  | cons hxy _ ih =>
    cases h' with
    | cons hyz h' => exact .cons (hR _ _ _ hxy hyz) (ih h')

theorem forall₂_congr_of_forall₂ {γ : Type} {R : α → β → Prop} {S : γ → β → Prop}
    {T : α → γ → Prop} {xs : List α} {ys : List β} {zs : List γ} (h : List.Forall₂ R xs ys)
    (hcongr : ∀ x y z, R x y → (S z y ↔ T x z)) :
    List.Forall₂ S zs ys ↔ List.Forall₂ T xs zs := by
  induction h generalizing zs with
  | nil => rw [List.forall₂_nil_right_iff, List.forall₂_nil_left_iff]
  | cons hR _ ih =>
    cases zs with
    | nil => simp
    | cons z zs => rw [List.forall₂_cons, List.forall₂_cons, hcongr _ _ z hR, ih]

theorem findSome?_flatMap (f : β → Option ε) (g : α → List β) (xs : List α) :
    (xs.flatMap g).findSome? f = xs.findSome? fun x => (g x).findSome? f := by
  rw [← List.head?_filterMap]
  rw [List.filterMap_flatMap]
  rw [List.head?_flatMap]
  simp only [List.head?_filterMap]

theorem findSome?_filterMap (f : β → Option ε) (g : α → Option β) (xs : List α) :
    (xs.filterMap g).findSome? f = xs.findSome? fun x => (g x).bind f := by
  rw [← List.head?_filterMap]
  rw [List.filterMap_filterMap]
  rw [List.head?_filterMap]

end SchemaMigration
