import SchemaMigration.ChangeSet.Document
import SchemaMigration.Proofs.Json.LocalReaders

/-!
This module contains that the readers of records are local if those of their fields are, be the
record written as an object or as an array, and so that the readers of change sets and their parts
are.
-/

namespace SchemaMigration

open Json Lexeme

namespace Json

theorem Field.mandatory_local {key : String} {read : Reader β} {set : β → α → α}
    (h : read.Local) : (Field.mandatory key read set).read.Local :=
  h.map set

theorem Field.optional_local {key : String} {read : Reader β} {set : Option β → α → α}
    (h : read.Local) : (Field.defaulted key (Reader.optional read) set).read.Local :=
  h.optional.map set

namespace Record

variable {r : Record α} {depth depth' : Nat} {text : List Char}

def takeAlone (r : Record α) (depth : Nat) (progress : Progress α) (key : String)
    (text : List Char) : Except Error (Progress α) :=
  match r.fields.find? (·.key == key) with
  | none => .ok progress
  | some field =>
    if progress.seen.contains key then
      .error (.duplicateField key)
    else
      field.read.alone depth text >>= fun set => .ok ⟨key :: progress.seen, set progress.value⟩

def finish (r : Record α) (progress : Progress α) : Except Error α :=
  match r.missing? progress.seen with
  | some key => .error (.missingField key)
  | none => .ok progress.value

theorem takes_member (hfields : ∀ field ∈ r.fields, field.read.Local) (htext : ValueSyntax text) :
    Reader.Takes (r.member depth) (r.takeAlone depth) text := by
  intro progress key cs before rest hcolon hspace hrest
  unfold member takeAlone
  cases hfind : r.fields.find? (·.key == key) with
  | none =>
    simp only [hcolon, bind, Except.bind]
    rw [Skip.value_eq_ok_iff.mpr (Skip.passes_valueSyntax htext hspace hrest)]
    rfl
  | some field =>
    cases hseen : progress.seen.contains key with
    | true => rfl
    | false =>
      simp only [hcolon, bind, Except.bind]
      rw [(hfields field (List.mem_of_find?_eq_some hfind)).reads htext depth hspace hrest]
      cases field.read.alone depth text <;> rfl

theorem takeAlone_congr (hfields : ∀ field ∈ r.fields, field.read.Local)
    (htext : Alike depth depth' text) (progress : Progress α) (key : String) :
    r.takeAlone depth progress key text = r.takeAlone depth' progress key text := by
  unfold takeAlone
  split
  . rfl
  . next field hfind =>
    rw [(hfields field (List.mem_of_find?_eq_some hfind)).alone_eq htext]

theorem object_makes (hfields : ∀ field ∈ r.fields, field.read.Local)
    {ms : List (List Char × List Char)} (hkeys : ∀ m ∈ ms, StringSyntax m.1)
    (hvalues : ∀ m ∈ ms, ValueSyntax m.2) (h : ObjectText ms text) :
    r.read.Makes (depth + 1) text
      (ms.foldlM (Reader.takeMember (r.takeAlone depth)) ⟨[], r.blank⟩ >>= r.finish) where
  reads := by
    intro rest _
    obtain ⟨items, inside, hitems, hinside, rfl⟩ := h
    have htake : ∀ m ∈ ms, Reader.Takes (r.member depth) (r.takeAlone depth) m.2 :=
      fun m hm => takes_member hfields (hvalues m hm)
    have hread : r.read (depth + 1) ('\x7b' :: inside ++ rest) =
        r.ofObject depth (inside ++ rest) := rfl
    rw [hread, ofObject, Reader.objectBody_inside_eq hkeys htake hitems hinside]
    cases ms.foldlM (Reader.takeMember (r.takeAlone depth)) ⟨[], r.blank⟩ with
    | error e => rfl
    | ok progress =>
      simp only [bind, Except.bind, Except.map, finish]
      cases r.missing? progress.seen <;> rfl

def takeItems (r : Record α) (depth : Nat) :
    List (Field α) → Nat → α → List (List Char) → Except Error α
  | [], _, value, [] => .ok value
  | [], _, _, _ :: _ => .error .trailingCharacters
  | field :: fields, index, value, [] =>
    match (field :: fields).findIdx? (·.required) with
    | some i => .error (.invalidLength (index + i) r.expected r.fields.length)
    | none => .ok value
  | field :: fields, index, value, item :: items =>
    field.read.alone depth item >>= fun set =>
      r.takeItems depth fields (index + 1) (set value) items

theorem positional_closing {fields : List (Field α)} {space : List Char}
    (hspace : space.all isSpace) (index : Nat) (value : α) (rest : List Char) :
    r.positional depth fields index value (space ++ [']'] ++ rest) =
      (r.takeItems depth fields index value []).map fun a => (a, rest) := by
  rw [List.append_assoc, List.singleton_append]
  cases fields with
  | nil =>
    have hclosing : closing (space ++ ']' :: rest) = .ok rest := by
      unfold closing
      rw [skipSpace_append hspace, skipSpace_cons rfl]
      rfl
    rw [positional, hclosing]
    rfl
  | cons field fields =>
    rw [positional, Reader.nextItem_closing hspace]
    simp only [bind, Except.bind, takeItems]
    cases (field :: fields).findIdx? (·.required) <;> rfl

theorem positional_round {field : Field α} {fields : List (Field α)} (h : field.read.Local)
    {item cs cs' rest : List Char} (hitem : ValueSyntax item) {index : Nat}
    (hnext : Reader.nextItem (index == 0) cs = .ok (.item (item ++ cs')))
    (hends : EndsNumber cs') {items : List (List Char)} {value : α}
    (hbehind : ∀ value, r.positional depth fields (index + 1) value cs' =
      (r.takeItems depth fields (index + 1) value items).map fun a => (a, rest)) :
    r.positional depth (field :: fields) index value cs =
      (r.takeItems depth (field :: fields) index value (item :: items)).map fun a => (a, rest) := by
  rw [positional, hnext, takeItems]
  simp only [bind, Except.bind]
  rw [(h.makes hitem depth).reads hends]
  cases field.read.alone depth item with
  | error e => rfl
  | ok set => exact hbehind (set value)

-- Nothing but the closing bracket may come behind the items of all fields.
theorem closing_of_item {space item : List Char} (hspace : space.all isSpace)
    (hstarts : startsValue item) (rest : List Char) :
    closing (space ++ (item ++ rest)) = .error .trailingCharacters := by
  have hrest := startsValue_append hstarts rest
  unfold closing
  rw [skipSpace_value hspace hstarts]
  split
  . next heq =>
    rw [heq] at hrest
    contradiction
  . next heq =>
    rw [heq] at hrest
    contradiction
  . next heq =>
    rw [heq] at hrest
    contradiction
  . rfl

theorem closing_of_comma {after before item : List Char} (hafter : after.all isSpace)
    (hbefore : before.all isSpace) (hstarts : startsValue item) (rest : List Char) :
    closing (after ++ ',' :: (before ++ (item ++ rest))) = .error .trailingCharacters := by
  have hrest := startsValue_append hstarts rest
  unfold closing
  rw [skipSpace_append hafter, skipSpace_cons rfl]
  simp only [skipSpace_value hbefore hstarts]
  split
  . next heq =>
    rw [heq] at hrest
    contradiction
  . rfl

theorem positional_behind {fields : List (Field α)} (hfields : ∀ field ∈ fields, field.read.Local)
    {items : List (List Char)} (hitems : ∀ item ∈ items, ValueSyntax item) {tail : List Char}
    (htail : Behind ']' items tail) (index : Nat) (value : α) (rest : List Char) :
    r.positional depth fields (index + 1) value (tail ++ rest) =
      (r.takeItems depth fields (index + 1) value items).map fun a => (a, rest) := by
  induction htail generalizing fields index value with
  | nil hspace => exact positional_closing hspace (index + 1) value rest
  | @cons after before item tail items hafter hbefore htail ih =>
    rw [List.forall_mem_cons] at hitems
    simp only [List.append_assoc, List.cons_append]
    cases fields with
    | nil =>
      rw [positional, closing_of_comma hafter hbefore hitems.1.starts]
      rfl
    | cons field fields =>
      rw [List.forall_mem_cons] at hfields
      have hends := htail.endsNumber (by simp : EndsNumber [']']) rest
      apply positional_round hfields.1 hitems.1 _ hends
      . intro value
        exact ih hfields.2 hitems.2 (index + 1) value
      . rw [Reader.nextItem_space hafter]
        exact Reader.nextItem_comma hbefore hitems.1.starts _

theorem positional_inside {fields : List (Field α)} (hfields : ∀ field ∈ fields, field.read.Local)
    {items : List (List Char)} (hitems : ∀ item ∈ items, ValueSyntax item) {inside : List Char}
    (hinside : Inside ']' items inside) (value : α) (rest : List Char) :
    r.positional depth fields 0 value (inside ++ rest) =
      (r.takeItems depth fields 0 value items).map fun a => (a, rest) := by
  cases hinside with
  | nil hspace => exact positional_closing hspace 0 value rest
  | cons hbefore htail =>
    rw [List.forall_mem_cons] at hitems
    rw [List.append_assoc, List.append_assoc]
    cases fields with
    | nil =>
      rw [positional, closing_of_item hbefore hitems.1.starts]
      rfl
    | cons field fields =>
      rw [List.forall_mem_cons] at hfields
      have hends := htail.endsNumber (by simp : EndsNumber [']']) rest
      apply positional_round hfields.1 hitems.1 _ hends
      . intro value
        exact positional_behind hfields.2 hitems.2 htail 0 value rest
      . exact Reader.nextItem_first hbefore hitems.1.starts _

theorem array_makes (hfields : ∀ field ∈ r.fields, field.read.Local) {items : List (List Char)}
    (hitems : ∀ item ∈ items, ValueSyntax item) (h : ArrayText items text) :
    r.read.Makes (depth + 1) text (r.takeItems depth r.fields 0 r.blank items) where
  reads := by
    intro rest _
    obtain ⟨inside, hinside, rfl⟩ := h
    exact positional_inside hfields hitems hinside r.blank rest

theorem takeItems_congr {fields : List (Field α)} (hfields : ∀ field ∈ fields, field.read.Local)
    {items : List (List Char)} (hitems : ∀ item ∈ items, Alike depth depth' item) (index : Nat)
    (value : α) :
    r.takeItems depth fields index value items = r.takeItems depth' fields index value items := by
  induction fields generalizing items index value with
  | nil => cases items <;> rfl
  | cons field fields ih =>
    cases items with
    | nil => rfl
    | cons item items =>
      rw [List.forall_mem_cons] at hfields hitems
      rw [takeItems, takeItems, hfields.1.alone_eq hitems.1]
      congr 1
      funext set
      exact ih hfields.2 hitems.2 (index + 1) (set value)

theorem read_of_scalar (h : ScalarSyntax text) (depth : Nat) (rest : List Char) :
    r.read depth (text ++ rest) = Reader.mismatch r.expected (text ++ rest) := by
  have hstarts := h.valueSyntax.starts
  unfold read
  split
  . next heq => exact absurd (Reader.head?_text hstarts heq) h.head_ne.2
  . next heq => exact absurd (Reader.head?_text hstarts heq) h.head_ne.1
  . rw [Reader.skipSpace_text hstarts]

theorem read_local (hfields : ∀ field ∈ r.fields, field.read.Local) : r.read.Local where
  space := by
    intro depth cs
    unfold read
    rw [skipSpace_skipSpace]
  alike := by
    intro depth depth' text htext
    cases htext with
    | scalar h =>
      obtain ⟨made, hmade⟩ := Reader.makes_of_mismatch h.valueSyntax (read_of_scalar (r := r) h)
      exact ⟨made, hmade _, hmade _⟩
    | @array depth depth' items _ hitems harray =>
      have hmakes : ∀ depth, r.read.Makes (depth + 1) _ _ := fun depth =>
        array_makes hfields (fun item hitem => (hitems item hitem).valueSyntax) harray
      have heq := takeItems_congr (r := r) hfields hitems 0 r.blank
      refine ⟨_, hmakes depth, ?_⟩
      rw [heq]
      exact hmakes depth'
    | @object depth depth' members _ hkeys hvalues hobject =>
      have hmakes : ∀ depth, r.read.Makes (depth + 1) _ _ := fun depth =>
        object_makes hfields hkeys (fun m hm => (hvalues m hm).valueSyntax) hobject
      have heq : members.foldlM (Reader.takeMember (r.takeAlone depth)) ⟨[], r.blank⟩ =
          members.foldlM (Reader.takeMember (r.takeAlone depth')) ⟨[], r.blank⟩ := by
        apply foldlM_congr
        intro m hm
        apply Reader.takeMember_congr
        exact takeAlone_congr hfields (hvalues m hm)
      refine ⟨_, hmakes depth, ?_⟩
      rw [heq]
      exact hmakes depth'
    | deepArray _ harray =>
      obtain ⟨_, _, rfl⟩ := harray
      exact ⟨.error .nestedTooDeeply, ⟨fun _ => rfl⟩, ⟨fun _ => rfl⟩⟩
    | deepObject _ _ hobject =>
      obtain ⟨_, _, _, _, rfl⟩ := hobject
      exact ⟨.error .nestedTooDeeply, ⟨fun _ => rfl⟩, ⟨fun _ => rfl⟩⟩

end Record

end Json

theorem Relation.fields_local : ∀ field ∈ record.fields, field.read.Local := by
  simp only [record, List.forall_mem_cons]
  refine ⟨?_, ?_, by simp⟩
  . exact Field.mandatory_local Reader.string_local
  . exact Field.mandatory_local Reader.string_local

theorem ColumnDrop.fields_local : ∀ field ∈ record.fields, field.read.Local := by
  simp only [record, List.forall_mem_cons]
  refine ⟨?_, by simp⟩
  exact Field.optional_local (Record.read_local Relation.fields_local)

theorem ColumnDef.fields_local : ∀ field ∈ record.fields, field.read.Local := by
  simp only [record, List.forall_mem_cons]
  refine ⟨?_, ?_, ?_, ?_, ?_, ?_, ?_, ?_, ?_, ?_, ?_, by simp⟩
  case refine_1 => exact Field.mandatory_local Reader.string_local
  case refine_2 => exact Field.optional_local Reader.value_local.list
  case refine_6 => exact Field.optional_local Reader.string_local
  case refine_11 => exact Field.optional_local (Record.read_local Relation.fields_local)
  all_goals exact Field.optional_local Reader.value_local

theorem TableChange.fields_local : ∀ field ∈ record.fields, field.read.Local := by
  have hcolumns := (Record.read_local ColumnDef.fields_local).nameMap
  have hdrops := (Record.read_local ColumnDrop.fields_local).nameMap
  simp only [record, List.forall_mem_cons]
  refine ⟨?_, ?_, ?_, ?_, by simp⟩
  . exact Field.mandatory_local Reader.string_local
  . exact Field.optional_local hcolumns
  . exact Field.optional_local hcolumns
  . exact Field.optional_local hdrops

theorem ChangeSet.fields_local : ∀ field ∈ record.fields, field.read.Local := by
  have htables := (Record.read_local TableChange.fields_local).nameMap
  simp only [record, List.forall_mem_cons]
  refine ⟨?_, ?_, ?_, by simp⟩
  . exact Field.optional_local htables
  . exact Field.optional_local htables
  . exact Field.optional_local htables

end SchemaMigration
