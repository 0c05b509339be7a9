import SchemaMigration.Proofs.Json.ReadBack
import SchemaMigration.Proofs.Json.Value

/-!
This module contains the ways to spell a value: with white space anywhere, with escapes in strings,
and with the members of an object in any order. However a value is spelled it is read as itself.
-/

namespace SchemaMigration.Json

open Lexeme

def nullText : List Char := ['n', 'u', 'l', 'l']

inductive ValueText : Nat → Json → List Char → Prop where
  | null {depth : Nat} : ValueText depth .null nullText
  | true {depth : Nat} : ValueText depth (.bool true) ['t', 'r', 'u', 'e']
  | false {depth : Nat} : ValueText depth (.bool false) ['f', 'a', 'l', 's', 'e']
  | integer {depth : Nat} {i : Int} :
      ValueText depth (.number (.integer i)) (Number.integer i).text
  | string {depth : Nat} {s : String} {text : List Char} (h : StringText s text) :
      ValueText depth (.string s) text
  | array {depth : Nat} {entries : List (Json × List Char)} {text : List Char}
      (hentries : ∀ e ∈ entries, ValueText depth e.1 e.2)
      (h : ArrayText (entries.map (·.2)) text) :
      ValueText (depth + 1) (.array (entries.map (·.1))) text
  | object {depth : Nat} {entries : List (String × Json × List Char)}
      {members : List (String × Json)} {text : List Char}
      (hentries : ∀ e ∈ entries, ValueText depth e.2.1 e.2.2)
      (horder : (entries.map fun e => (e.1, e.2.1)).Perm members)
      (h : MembersText (entries.map fun e => (e.1, e.2.2)) text) :
      ValueText (depth + 1) (.object members) text

namespace Reader

theorem value_space {space : List Char} (hspace : space.all isSpace) (depth : Nat)
    (cs : List Char) : value depth (space ++ cs) = value depth cs := by
  unfold value
  rw [skipSpace_append hspace]

theorem value_null (depth : Nat) (cs : List Char) :
    value depth ('n' :: cs) = word ['u', 'l', 'l'] cs >>= fun rest => .ok (.null, rest) := by
  cases depth <;> rfl

theorem value_true (depth : Nat) (cs : List Char) :
    value depth ('t' :: cs) = word ['r', 'u', 'e'] cs >>= fun rest => .ok (.bool true, rest) := by
  cases depth <;> rfl

theorem value_false (depth : Nat) (cs : List Char) :
    value depth ('f' :: cs) =
      word ['a', 'l', 's', 'e'] cs >>= fun rest => .ok (.bool false, rest) := by
  cases depth <;> rfl

theorem value_quote (depth : Nat) (cs : List Char) :
    value depth ('"' :: cs) = stringBody cs >>= fun (s, rest) => .ok (.string s, rest) := by
  cases depth <;> rfl

theorem value_bracket (depth : Nat) (cs : List Char) :
    value (depth + 1) ('[' :: cs) =
      arrayBody (value depth) cs >>= fun (items, rest) => .ok (.array items, rest) := rfl

theorem value_brace (depth : Nat) (cs : List Char) :
    value (depth + 1) ('\x7b' :: cs) =
      objectBody (addMember depth) [] cs >>= fun (members, rest) =>
        .ok (.object members, rest) := rfl

theorem value_number {depth : Nat} {c : Char} {cs : List Char} (hc : c = '-' ∨ c.isDigit = true) :
    value depth (c :: cs) = Lexeme.number (c :: cs) >>= fun (n, rest) => .ok (.number n, rest) := by
  unfold value
  rw [skipSpace_cons (isSpace_eq_false_of_startsValue (startsValue_of_number hc cs))]
  split
  case h_10 heq =>
    rw [List.cons.injEq] at heq
    obtain ⟨rfl, rfl⟩ := heq
    rw [if_pos hc]
  all_goals simp_all

end Reader

theorem perm_insertMember {key : String} {value : Json} {members : List (String × Json)}
    (hnew : ∀ m ∈ members, m.1 ≠ key) :
    (insertMember key value members).Perm ((key, value) :: members) := by
  induction members with
  | nil => rfl
  | cons m members ih =>
    rw [List.forall_mem_cons] at hnew
    unfold insertMember
    rw [if_neg (Ne.symm hnew.1)]
    split
    . rfl
    . exact ((ih hnew.2).cons m).trans (.swap _ _ _)

theorem foldl_insertMember {before after members : List (String × Json)}
    (hbefore : before.Pairwise (·.1 < ·.1)) (hmembers : members.Pairwise (·.1 < ·.1))
    (hperm : (before ++ after).Perm members) :
    after.foldl (fun ms m => insertMember m.1 m.2 ms) before = members := by
  induction after generalizing before with
  | nil =>
    rw [List.append_nil] at hperm
    refine hperm.eq_of_pairwise ?_ hbefore hmembers
    intro m m' _ _ hlt hgt
    exact absurd hlt (String.lt_asymm hgt)
  | cons m after ih =>
    have hkeys : ((before ++ m :: after).map (·.1)).Nodup := by
      rw [(hperm.map _).nodup_iff]
      unfold List.Nodup
      rw [List.pairwise_map]
      apply hmembers.imp
      intro m m' hlt heq
      rw [heq] at hlt
      exact String.lt_irrefl _ hlt
    have hnew : ∀ b ∈ before, b.1 ≠ m.1 := by
      intro b hb
      rw [List.map_append, List.nodup_append] at hkeys
      exact hkeys.2.2 b.1 (List.mem_map_of_mem hb) m.1 (by simp)
    rw [List.foldl_cons]
    apply ih (sorted_insertMember m.1 m.2 hbefore)
    refine (((perm_insertMember hnew).append_right after).trans ?_).trans hperm
    exact List.perm_middle.symm

theorem runs_addMember {depth : Nat} {entries : List (String × Json × List Char)}
    (h : ∀ e ∈ entries, Reader.Finds Reader.value depth e.2.2 e.2.1)
    (before : List (String × Json)) :
    Reader.Runs (Reader.addMember depth) before (entries.map fun e => (e.1, e.2.2))
      ((entries.map fun e => (e.1, e.2.1)).foldl (fun ms m => insertMember m.1 m.2 ms) before) := by
  induction entries generalizing before with
  | nil => exact .nil
  | cons e entries ih =>
    rw [List.forall_mem_cons] at h
    refine .cons ?_ (ih h.2 _)
    intro cs space rest hcolon hspace hrest
    unfold Reader.addMember
    rw [hcolon]
    simp only [bind, Except.bind]
    rw [h.1.reads hspace hrest]

theorem Reader.value_finds {depth : Nat} {text : List Char} {j : Json} (hstarts : startsValue text)
    (h : ∀ {rest}, EndsNumber rest → value depth (text ++ rest) = .ok (j, rest)) :
    Finds value depth text j where
  starts := hstarts
  reads := by
    intro space rest hspace hrest
    rw [value_space hspace, h hrest]

theorem ValueText.finds {depth : Nat} {j : Json} {text : List Char} (h : ValueText depth j text)
    (hregular : j.Regular) : Reader.Finds Reader.value depth text j := by
  induction h with
  | null =>
    apply Reader.value_finds rfl
    intro rest _
    simp [nullText, Reader.value_null, word, bind, Except.bind]
  | true =>
    apply Reader.value_finds rfl
    intro rest _
    simp [Reader.value_true, word, bind, Except.bind]
  | false =>
    apply Reader.value_finds rfl
    intro rest _
    simp [Reader.value_false, word, bind, Except.bind]
  | @integer _ i =>
    cases hregular with
    | number hrange =>
    apply Reader.value_finds (startsValue_integer i)
    intro rest hrest
    have hnumber := number_text hrange hrest
    obtain ⟨c, cs, htext, hc⟩ := integer_text_cons i
    rw [htext, List.cons_append] at hnumber ⊢
    rw [Reader.value_number hc, hnumber]
    rfl
  | string h =>
    obtain ⟨body, rfl, hbody⟩ := h.stringBody
    apply Reader.value_finds rfl
    intro rest _
    rw [List.cons_append, Reader.value_quote, hbody]
    rfl
  | @array depth entries _ _ h ih =>
    cases hregular with
    | array hitems =>
    obtain ⟨inside, hinside, rfl⟩ := h
    apply Reader.value_finds rfl
    intro rest _
    have hfinds : List.Forall₂ (Reader.Finds Reader.value depth) (entries.map (·.2))
        (entries.map (·.1)) := by
      rw [List.forall₂_map_left_iff, List.forall₂_map_right_iff, List.forall₂_same]
      intro e he
      exact ih e he (hitems e.1 (List.mem_map_of_mem he))
    rw [List.cons_append, Reader.value_bracket, Reader.arrayBody_inside hfinds hinside]
    rfl
  | @object depth entries members _ _ horder h ih =>
    cases hregular with
    | object hsorted hmembers =>
    obtain ⟨items, inside, hitems, hinside, rfl⟩ := h
    apply Reader.value_finds rfl
    intro rest _
    have hfinds : ∀ e ∈ entries, Reader.Finds Reader.value depth e.2.2 e.2.1 := by
      intro e he
      exact ih e he (hmembers _ (horder.mem_iff.mp (List.mem_map_of_mem he)))
    have hruns := runs_addMember hfinds []
    rw [foldl_insertMember List.Pairwise.nil hsorted horder] at hruns
    rw [List.cons_append, Reader.value_brace, Reader.objectBody_inside hruns hitems hinside]
    rfl

theorem valueText_write {j : Json} (hfree : j.FloatFree) {style : Style} (hstyle : style.Blank)
    (level : Nat) {depth : Nat} (hheight : j.height ≤ depth) :
    ValueText depth j (write style level j) := by
  induction hfree generalizing level depth with
  | null => exact .null
  | bool b =>
    cases b with
    | false => exact .false
    | true => exact .true
  | integer i => exact .integer
  | string s => exact .string (stringText_encode s)
  | @array items _ ih =>
    cases depth with
    | zero => exact absurd hheight not_height_array_le_zero
    | succ depth =>
      rw [height_array_le] at hheight
      have hentries : ∀ e ∈ items.map fun j => (j, write style (level + 1) j),
          ValueText depth e.1 e.2 := by
        rw [List.forall_mem_map]
        intro j hj
        exact ih j hj (level + 1) (hheight j hj)
      have harray := @ValueText.array _ _ (write style level (.array items)) hentries
      simp only [List.map_map, Function.comp_def, List.map_id_fun'] at harray
      exact harray (arrayText_write hstyle level items)
  | @object members _ ih =>
    cases depth with
    | zero => exact absurd hheight not_height_object_le_zero
    | succ depth =>
      rw [height_object_le] at hheight
      have hentries : ∀ e ∈ members.map fun m => (m.1, m.2, write style (level + 1) m.2),
          ValueText depth e.2.1 e.2.2 := by
        rw [List.forall_mem_map]
        intro m hm
        exact ih m hm (level + 1) (hheight m hm)
      have hobject := @ValueText.object _ _ members (write style level (.object members)) hentries
      simp only [List.map_map, Function.comp_def, List.map_id_fun'] at hobject
      exact hobject (.refl _) (membersText_write hstyle level members)

theorem StringText.head_ne {s : String} {text : List Char} (h : StringText s text) :
    text.head? ≠ some 'n' := by
  obtain ⟨_, _, rfl⟩ := h
  simp

theorem ValueText.head_ne {depth : Nat} {j : Json} {text : List Char} (h : ValueText depth j text)
    (hnull : j ≠ .null) : text.head? ≠ some 'n' := by
  cases h with
  | null => contradiction
  | true => simp
  | false => simp
  | @integer _ i =>
    obtain ⟨c, cs, htext, hc⟩ := integer_text_cons i
    rw [htext]
    rintro ⟨⟩
    simp at hc
  | string h => exact h.head_ne
  | array _ h =>
    obtain ⟨_, _, rfl⟩ := h
    simp
  | object _ _ h =>
    obtain ⟨_, _, _, _, rfl⟩ := h
    simp

theorem ValueText.finds_list {depth : Nat} {items : List Json} {text : List Char}
    (h : ValueText depth (.array items) text) (hregular : ∀ j ∈ items, j.Regular) :
    (Reader.list Reader.value).Finds depth text items := by
  cases h with
  | @array depth entries _ hentries h =>
    apply h.finds
    rw [List.forall₂_map_left_iff, List.forall₂_map_right_iff, List.forall₂_same]
    intro e he
    exact (hentries e he).finds (hregular e.1 (List.mem_map_of_mem he))

end SchemaMigration.Json
