import SchemaMigration.Proofs.Json.Syntax

/-!
This module contains the reading of arrays and objects: what is in them is read one by one, with
white space anywhere, and the reading stops right behind them. What is written, in whatever style,
is a case of this.
-/

namespace SchemaMigration.Json

open Lexeme

/--
A reader finds a value in its text, with white space in front of it and anything but more digits
behind it.
-/
structure Reader.Finds (read : Reader α) (depth : Nat) (text : List Char) (a : α) : Prop where
  starts : startsValue text
  reads : ∀ {space rest : List Char}, space.all isSpace → EndsNumber rest →
    read depth (space ++ (text ++ rest)) = .ok (a, rest)

theorem Reader.Finds.reads_plain {read : Reader α} {depth : Nat} {text : List Char} {a : α}
    (h : read.Finds depth text a) {rest : List Char} (hrest : EndsNumber rest) :
    read depth (text ++ rest) = .ok (a, rest) := by
  have hspace : ([] : List Char).all isSpace := rfl
  exact h.reads hspace hrest

namespace Reader

theorem Finds.map {read : Reader α} {depth : Nat} {text : List Char} {a : α}
    (h : read.Finds depth text a) (f : α → β) : (Reader.map f read).Finds depth text (f a) where
  starts := h.starts
  reads := by
    intro space rest hspace hrest
    unfold Reader.map
    rw [h.reads hspace hrest]
    rfl

theorem Finds.optional {read : Reader α} {depth : Nat} {text : List Char} {a : α}
    (h : read.Finds depth text a) (hnull : text.head? ≠ some 'n') :
    (Reader.optional read).Finds depth text (some a) where
  starts := h.starts
  reads := by
    intro space rest hspace hrest
    unfold Reader.optional
    rw [skipSpace_value hspace h.starts]
    split
    . next cs heq =>
      apply absurd _ hnull
      rw [← List.head?_append_of_ne_nil _ (ne_nil_of_startsValue h.starts)]
      rw [heq]
      rfl
    . rw [h.reads_plain hrest]
      rfl

theorem Finds.document {read : Reader α} {text : List Char} {a : α}
    (h : read.Finds maxDepth text a) {before after : List Char} (hbefore : before.all isSpace)
    (hafter : after.all isSpace) :
    Reader.document read (String.ofList (before ++ (text ++ after))) = .ok a := by
  have hends := endsNumber_append_of_space hafter endsNumber_nil
  rw [List.append_nil] at hends
  have hrest : skipSpace after = [] := by
    rw [← List.append_nil after, skipSpace_append hafter]
    rfl
  unfold Reader.document
  rw [String.toList_ofList]
  rw [h.reads hbefore hends]
  simp [bind, Except.bind, hrest]

theorem nextItem_first {space text : List Char} (hspace : space.all isSpace)
    (htext : startsValue text) (rest : List Char) :
    nextItem true (space ++ (text ++ rest)) = .ok (.item (text ++ rest)) := by
  unfold nextItem
  rw [skipSpace_value hspace htext]
  split
  . next heq => exact absurd (List.append_eq_nil_iff.mp heq).1 (ne_nil_of_startsValue htext)
  . next heq =>
    have hstarts := startsValue_append htext rest
    rw [heq] at hstarts
    contradiction
  . next heq =>
    rw [← heq]
    rfl

theorem nextItem_of_comma (cs : List Char) :
    nextItem false (',' :: cs) =
      match skipSpace cs with
      | [] => .error (.unfinished .value)
      | ']' :: _ => .error .trailingComma
      | rest => .ok (.item rest) := rfl

theorem nextItem_comma {space text : List Char} (hspace : space.all isSpace)
    (htext : startsValue text) (rest : List Char) :
    nextItem false (',' :: (space ++ (text ++ rest))) = .ok (.item (text ++ rest)) := by
  rw [nextItem_of_comma]
  rw [skipSpace_value hspace htext]
  split
  . next heq => exact absurd (List.append_eq_nil_iff.mp heq).1 (ne_nil_of_startsValue htext)
  . next heq =>
    have hstarts := startsValue_append htext rest
    rw [heq] at hstarts
    contradiction
  . rfl

theorem nextItem_closing {space : List Char} (hspace : space.all isSpace) (first : Bool)
    (rest : List Char) : nextItem first (space ++ ']' :: rest) = .ok (.closed rest) := by
  unfold nextItem
  rw [skipSpace_append hspace]
  rw [skipSpace_cons rfl]
  rfl

theorem nextItem_space {space : List Char} (hspace : space.all isSpace) (first : Bool)
    (cs : List Char) : nextItem first (space ++ cs) = nextItem first cs := by
  unfold nextItem
  rw [skipSpace_append hspace]

variable {read : Reader α} {depth : Nat}

theorem items_behind {texts : List (List Char)} {as : List α}
    (h : List.Forall₂ (read.Finds depth) texts as) {tail : List Char}
    (htail : Behind ']' texts tail) {rounds : Nat} (hrounds : texts.length < rounds)
    (rest : List Char) :
    items (read depth) rounds false (tail ++ rest) = .ok (as, rest) := by
  induction h generalizing tail rounds with
  | nil =>
    cases htail with
    | nil hspace =>
      obtain ⟨rounds, rfl⟩ := Nat.exists_eq_add_of_lt hrounds
      simp only [items, List.append_assoc, List.singleton_append]
      rw [nextItem_closing hspace]
      rfl
  | cons htext _ ih =>
    cases htail with
    | cons hafter hbefore htail =>
      cases rounds with
      | zero => contradiction
      | succ rounds =>
        have hbehind := htail.endsNumber (by simp : EndsNumber [']']) rest
        simp only [items, List.append_assoc, List.cons_append]
        rw [nextItem_space hafter, nextItem_comma hbefore htext.starts]
        simp only [bind, Except.bind]
        rw [htext.reads_plain hbehind]
        simp only
        rw [ih htail (by simpa using hrounds)]

theorem arrayBody_inside {texts : List (List Char)} {as : List α}
    (h : List.Forall₂ (read.Finds depth) texts as) {inside : List Char}
    (hinside : Inside ']' texts inside) (rest : List Char) :
    arrayBody (read depth) (inside ++ rest) = .ok (as, rest) := by
  unfold arrayBody
  cases h with
  | nil =>
    cases hinside with
    | nil hspace =>
      simp only [items, List.append_assoc, List.singleton_append]
      rw [nextItem_closing hspace]
      rfl
  | cons htext htexts =>
    cases hinside with
    | @cons before _ tail _ hbefore htail =>
      have hbehind := htail.endsNumber (by simp : EndsNumber [']']) rest
      have hlength := htail.length_lt
      simp only [items, List.append_assoc]
      rw [nextItem_first hbefore htext.starts]
      simp only [bind, Except.bind]
      rw [htext.reads_plain hbehind]
      simp only
      rw [items_behind htexts htail]
      simp only [List.length_append]
      omega

theorem nextMember_space {space : List Char} (hspace : space.all isSpace) (first : Bool)
    (cs : List Char) : nextMember first (space ++ cs) = nextMember first cs := by
  unfold nextMember
  rw [skipSpace_append hspace]

theorem nextMember_of_comma (cs : List Char) :
    nextMember false (',' :: cs) =
      match skipSpace cs with
      | [] => .error (.unfinished .value)
      | '\x7d' :: _ => .error .trailingComma
      | rest => key rest := rfl

theorem nextMember_closing {space : List Char} (hspace : space.all isSpace) (first : Bool)
    (rest : List Char) : nextMember first (space ++ '\x7d' :: rest) = .ok (.closed rest) := by
  unfold nextMember
  rw [skipSpace_append hspace]
  rw [skipSpace_cons rfl]
  rfl

theorem key_of_quote (cs : List Char) :
    key ('"' :: cs) = stringBody cs >>= fun (k, rest) => .ok (.key k rest) := rfl

theorem nextMember_first {space item : List Char} (hspace : space.all isSpace)
    (hitem : item.head? = some '"') (rest : List Char) :
    nextMember true (space ++ (item ++ rest)) = key (item ++ rest) := by
  obtain ⟨body, rfl⟩ := List.head?_eq_some_iff.mp hitem
  unfold nextMember
  rw [skipSpace_value hspace rfl]
  rfl

theorem nextMember_comma {after before item : List Char} (hafter : after.all isSpace)
    (hbefore : before.all isSpace) (hitem : item.head? = some '"') (rest : List Char) :
    nextMember false (after ++ ',' :: (before ++ (item ++ rest))) = key (item ++ rest) := by
  obtain ⟨body, rfl⟩ := List.head?_eq_some_iff.mp hitem
  rw [nextMember_space hafter, nextMember_of_comma]
  rw [skipSpace_value hbefore rfl]
  rfl

theorem colon_space {after : List Char} (hafter : after.all isSpace) (cs : List Char) :
    colon (after ++ ':' :: cs) = .ok cs := by
  unfold colon
  rw [skipSpace_append hafter, skipSpace_cons rfl]
  rfl

end Reader

theorem MemberItem.stringBody {m : String × List Char} {item : List Char} (h : MemberItem m item) :
    ∃ body after before, item = '"' :: body ∧ after.all isSpace ∧ before.all isSpace ∧
      ∀ rest, stringBody (body ++ rest) =
        .ok (m.1, after ++ ':' :: (before ++ (m.2 ++ rest))) := by
  obtain ⟨text, hkey, after, before, hafter, hbefore, rfl⟩ := h
  obtain ⟨body, rfl, hbody⟩ := hkey.stringBody
  refine ⟨body ++ (after ++ ':' :: (before ++ m.2)), after, before, rfl, hafter, hbefore, ?_⟩
  intro rest
  simp only [List.append_assoc, List.cons_append]
  rw [hbody]

theorem MemberItem.key {m : String × List Char} {item : List Char} (h : MemberItem m item) :
    item.head? = some '"' ∧ ∃ after before, after.all isSpace ∧ before.all isSpace ∧
      ∀ rest, Reader.key (item ++ rest) =
        .ok (.key m.1 (after ++ ':' :: (before ++ (m.2 ++ rest)))) := by
  obtain ⟨body, after, before, rfl, hafter, hbefore, hbody⟩ := h.stringBody
  refine ⟨rfl, after, before, hafter, hbefore, ?_⟩
  intro rest
  rw [List.cons_append, Reader.key_of_quote, hbody]
  rfl

namespace Reader

inductive Runs (step : σ → String → List Char → Except Error (σ × List Char)) :
    σ → List (String × List Char) → σ → Prop where
  | nil {s : σ} : Runs step s [] s
  | cons {s s' s'' : σ} {m : String × List Char} {members : List (String × List Char)}
      (hstep : ∀ {cs before rest : List Char}, colon cs = .ok (before ++ (m.2 ++ rest)) →
        before.all isSpace → EndsNumber rest → step s m.1 cs = .ok (s', rest))
      (htail : Runs step s' members s'') : Runs step s (m :: members) s''

variable {step : σ → String → List Char → Except Error (σ × List Char)} {s s' : σ}

theorem members_behind {ms : List (String × List Char)} (h : Runs step s ms s')
    {items : List (List Char)} (hitems : List.Forall₂ MemberItem ms items) {tail : List Char}
    (htail : Behind '\x7d' items tail) {rounds : Nat} (hrounds : items.length < rounds)
    (rest : List Char) :
    members step rounds false s (tail ++ rest) = .ok (s', rest) := by
  induction h generalizing items tail rounds with
  | nil =>
    cases hitems
    cases htail with
    | nil hspace =>
      obtain ⟨rounds, rfl⟩ := Nat.exists_eq_add_of_lt hrounds
      simp only [members, List.append_assoc, List.singleton_append]
      rw [nextMember_closing hspace]
      rfl
  | cons hstep _ ih =>
    cases hitems with
    | cons hitem hitems =>
      cases htail with
      | cons hafter hbefore htail =>
        cases rounds with
        | zero => contradiction
        | succ rounds =>
          have hbehind := htail.endsNumber (by simp : EndsNumber ['\x7d']) rest
          obtain ⟨hquote, after', before', hafter', hbefore', hkey⟩ := hitem.key
          simp only [members, List.append_assoc, List.cons_append]
          rw [nextMember_comma hafter hbefore hquote, hkey]
          simp only [bind, Except.bind]
          rw [hstep (colon_space hafter' _) hbefore' hbehind]
          simp only
          rw [ih hitems htail (by simpa using hrounds)]

theorem objectBody_inside {ms : List (String × List Char)} (h : Runs step s ms s')
    {items : List (List Char)} (hitems : List.Forall₂ MemberItem ms items) {inside : List Char}
    (hinside : Inside '\x7d' items inside) (rest : List Char) :
    objectBody step s (inside ++ rest) = .ok (s', rest) := by
  unfold objectBody
  cases h with
  | nil =>
    cases hitems
    cases hinside with
    | nil hspace =>
      simp only [members, List.append_assoc, List.singleton_append]
      rw [nextMember_closing hspace]
      rfl
  | cons hstep hrest =>
    cases hitems with
    | cons hitem hitems =>
      cases hinside with
      | cons hbefore htail =>
        have hbehind := htail.endsNumber (by simp : EndsNumber ['\x7d']) rest
        have hlength := htail.length_lt
        obtain ⟨hquote, after', before', hafter', hbefore', hkey⟩ := hitem.key
        simp only [members, List.append_assoc]
        rw [nextMember_first hbefore hquote, hkey]
        simp only [bind, Except.bind]
        rw [hstep (colon_space hafter' _) hbefore' hbehind]
        simp only
        rw [members_behind hrest hitems htail]
        simp only [List.length_append]
        omega

end Reader

theorem StringText.finds {s : String} {text : List Char} (h : StringText s text) (depth : Nat) :
    Reader.string.Finds depth text s := by
  obtain ⟨body, rfl, hbody⟩ := h.stringBody
  constructor
  . rfl
  . intro space rest hspace _
    unfold Reader.string
    rw [skipSpace_value hspace rfl]
    exact hbody rest

theorem ArrayText.finds {read : Reader α} {depth : Nat} {texts : List (List Char)} {as : List α}
    {text : List Char} (h : ArrayText texts text)
    (hitems : List.Forall₂ (read.Finds depth) texts as) :
    (Reader.list read).Finds (depth + 1) text as := by
  obtain ⟨inside, hinside, rfl⟩ := h
  constructor
  . rfl
  . intro space rest hspace _
    unfold Reader.list
    rw [skipSpace_value hspace rfl]
    exact Reader.arrayBody_inside hitems hinside rest

structure Style.Blank (style : Style) : Prop where
  lineStart : ∀ depth, (style.lineStart depth).all isSpace
  afterColon : style.afterColon.all isSpace

theorem Style.blank_compact : Style.compact.Blank where
  lineStart _ := rfl
  afterColon := rfl

theorem Style.blank_pretty : Style.pretty.Blank where
  lineStart depth := by simp [Style.pretty, isSpace]
  afterColon := rfl

def behindItem (style : Style) (depth : Nat) (closing : Char) : List (List Char) → List Char
  | [] => style.lineStart depth ++ [closing]
  | text :: texts =>
    ',' :: (style.lineStart (depth + 1) ++ (text ++ behindItem style depth closing texts))

def insideBrackets (style : Style) (depth : Nat) (closing : Char) : List (List Char) → List Char
  | [] => [closing]
  | text :: texts => style.lineStart (depth + 1) ++ (text ++ behindItem style depth closing texts)

theorem intercalate_append_eq_behindItem (style : Style) (depth : Nat) (closing : Char)
    (text : List Char) (texts : List (List Char)) :
    (',' :: style.lineStart (depth + 1)).intercalate (text :: texts) ++ style.lineStart depth
      ++ [closing] = text ++ behindItem style depth closing texts := by
  induction texts generalizing text with
  | nil => simp [behindItem]
  | cons next texts ih =>
    rw [List.intercalate_cons_cons]
    simp only [List.append_assoc] at ih ⊢
    rw [ih next]
    simp [behindItem]

theorem bracketed_eq (style : Style) (depth : Nat) (opening closing : Char)
    (texts : List (List Char)) :
    bracketed style depth opening closing texts
      = opening :: insideBrackets style depth closing texts := by
  cases texts with
  | nil => rfl
  | cons text texts =>
    unfold bracketed
    simp only [insideBrackets]
    rw [← intercalate_append_eq_behindItem]
    simp

theorem behind_behindItem {style : Style} (hstyle : style.Blank) (depth : Nat) (closing : Char)
    (texts : List (List Char)) : Behind closing texts (behindItem style depth closing texts) := by
  induction texts with
  | nil => exact .nil (hstyle.lineStart depth)
  | cons text texts ih => exact @Behind.cons _ [] _ _ _ _ rfl (hstyle.lineStart _) ih

theorem inside_insideBrackets {style : Style} (hstyle : style.Blank) (depth : Nat) (closing : Char)
    (texts : List (List Char)) :
    Inside closing texts (insideBrackets style depth closing texts) := by
  cases texts with
  | nil => exact @Inside.nil _ [] rfl
  | cons text texts =>
    exact .cons (hstyle.lineStart _) (behind_behindItem hstyle depth closing texts)

def memberText (style : Style) (m : String × List Char) : List Char :=
  Quoted.encode m.1 ++ (':' :: (style.afterColon ++ m.2))

theorem write_array (style : Style) (level : Nat) (items : List Json) :
    write style level (.array items) =
      '[' :: insideBrackets style level ']' (items.map (write style (level + 1))) := by
  rw [write, bracketed_eq, writeItems_eq_map]

theorem write_object (style : Style) (level : Nat) (members : List (String × Json)) :
    write style level (.object members) =
      '\x7b' :: insideBrackets style level '\x7d'
        ((members.map fun m => (m.1, write style (level + 1) m.2)).map (memberText style)) := by
  rw [write, bracketed_eq, writeMembers_eq_map, List.map_map]
  congr 2
  apply List.map_congr_left
  intro m _
  simp [memberText]

theorem memberItem_memberText {style : Style} (hstyle : style.Blank) (m : String × List Char) :
    MemberItem m (memberText style m) :=
  ⟨_, stringText_encode m.1, [], style.afterColon, rfl, hstyle.afterColon, rfl⟩

theorem arrayText_write {style : Style} (hstyle : style.Blank) (level : Nat) (items : List Json) :
    ArrayText (items.map (write style (level + 1))) (write style level (.array items)) :=
  ⟨_, inside_insideBrackets hstyle level ']' _, write_array style level items⟩

theorem membersText_write {style : Style} (hstyle : style.Blank) (level : Nat)
    (members : List (String × Json)) :
    MembersText (members.map fun m => (m.1, write style (level + 1) m.2))
      (write style level (.object members)) := by
  refine ⟨_, _, ?_, inside_insideBrackets hstyle level '\x7d' _, write_object style level members⟩
  rw [List.forall₂_map_right_iff, List.forall₂_same]
  intro m _
  exact memberItem_memberText hstyle m

end SchemaMigration.Json
