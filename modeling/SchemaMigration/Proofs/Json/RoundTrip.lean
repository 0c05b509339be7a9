import SchemaMigration.Json.Variant
import SchemaMigration.NameMap.Document
import SchemaMigration.Proofs.Json.Spelling

/-!
This module contains the values that readers give back when they read the JSON written for them: one
lemma for every way to put a reader together.
-/

namespace SchemaMigration.Json

open Lexeme

/--
A reader gives back a value when it reads the given JSON, in any style, as long as arrays and
objects may be nested as deeply as they are.
-/
structure ReadsBack (read : Reader α) (j : Json) (a : α) : Prop where
  finds : ∀ {style : Style} (level : Nat) {depth : Nat}, style.Blank → j.height ≤ depth →
    read.Finds depth (write style level j) a

namespace ReadsBack

theorem map {read : Reader α} {j : Json} {a : α} (h : ReadsBack read j a) (f : α → β) :
    ReadsBack (Reader.map f read) j (f a) := by
  constructor
  intro style level depth hstyle hheight
  exact (h.finds level hstyle hheight).map f

theorem string (s : String) : ReadsBack Reader.string (.string s) s := by
  constructor
  intro style level depth _ _
  exact (stringText_encode s).finds depth

theorem bool (b : Bool) : ReadsBack Reader.bool (.bool b) b := by
  constructor
  intro style level depth _ _
  constructor
  . cases b <;> rfl
  . intro space rest hspace _
    unfold Reader.bool
    cases b with
    | false =>
      rw [skipSpace_value hspace rfl]
      simp [write, word, bind, Except.bind]
    | true =>
      rw [skipSpace_value hspace rfl]
      simp [write, word, bind, Except.bind]

theorem finds_map {read : Reader α} {js : List Json} {as : List α}
    (h : List.Forall₂ (ReadsBack read) js as) {style : Style} (hstyle : style.Blank) (level : Nat)
    {depth : Nat} (hheight : ∀ j ∈ js, j.height ≤ depth) :
    List.Forall₂ (read.Finds depth) (js.map (write style level)) as := by
  rw [List.forall₂_map_left_iff]
  induction h with
  | nil => exact .nil
  | cons hhead _ ih =>
    apply List.Forall₂.cons
    . exact hhead.finds level hstyle (hheight _ (by simp))
    . apply ih
      intro j hj
      exact hheight j (by simp [hj])

theorem list {read : Reader α} {js : List Json} {as : List α}
    (h : List.Forall₂ (ReadsBack read) js as) : ReadsBack (Reader.list read) (.array js) as := by
  constructor
  intro style level depth hstyle hheight
  cases depth with
  | zero => exact absurd hheight not_height_array_le_zero
  | succ depth =>
    rw [height_array_le] at hheight
    exact (arrayText_write hstyle level js).finds (finds_map h hstyle (level + 1) hheight)

theorem value {j : Json} (hregular : Regular j) (hfree : FloatFree j) :
    ReadsBack Reader.value j j := by
  constructor
  intro style level depth hstyle hheight
  exact (valueText_write hfree hstyle level hheight).finds hregular

theorem exact {j : Json} (h : Exact j) : ReadsBack Reader.value j j :=
  value h.regular h.floatFree

theorem document {read : Reader α} {j : Json} {a : α} (h : ReadsBack read j a) {style : Style}
    (hstyle : style.Blank) (hheight : j.height ≤ maxDepth) (tail : List Char)
    (htail : tail.all isSpace) :
    Reader.document read (String.ofList (write style 0 j ++ tail)) = .ok a := by
  have hbefore : ([] : List Char).all isSpace := rfl
  rw [← (h.finds 0 hstyle hheight).document hbefore htail, List.nil_append]

end ReadsBack

end SchemaMigration.Json
