import SchemaMigration.ChangeSet.Document
import SchemaMigration.Plan.Document
import SchemaMigration.Proofs.Json.RoundTrip

/-!
This module contains the reading of maps and records, and the round trips of records and of values
in several variants. That of a record is put together field by field, and each field needs only the
round trip of its own value.
-/

namespace SchemaMigration

open Json Lexeme

theorem NameMap.runs_member {read : Reader α} {depth : Nat} (before : List (String × α))
    {entries : List (String × α)} {members : List (String × List Char)}
    (h : List.Forall₂ (fun e m => e.1 = m.1 ∧ read.Finds depth m.2 e.2) entries members)
    (hnames : ((before ++ entries).map (·.1)).Nodup) :
    Reader.Runs (NameMap.member read depth) before members (before ++ entries) := by
  induction h generalizing before with
  | nil =>
    rw [List.append_nil]
    exact .nil
  | @cons e m entries members hentry _ ih =>
    obtain ⟨hname, hread⟩ := hentry
    have hnew : before.any (·.1 == e.1) = false := by
      rw [List.map_append, List.nodup_append] at hnames
      rw [List.any_eq_false]
      intro b hb heq
      apply hnames.2.2 b.1 (List.mem_map_of_mem hb) e.1 (by simp)
      simpa using heq
    rw [List.append_cons] at hnames ⊢
    refine .cons ?_ (ih _ hnames)
    intro cs space rest hcolon hspace hrest
    unfold NameMap.member
    rw [hcolon, ← hname]
    simp only [bind, Except.bind]
    rw [hread.reads hspace hrest]
    simp [hnew]

theorem NameMap.finds {read : Reader α} {map : NameMap α} (hnames : map.names.Nodup) {depth : Nat}
    {members : List (String × List Char)}
    (h : List.Forall₂ (fun e m => e.1 = m.1 ∧ read.Finds depth m.2 e.2) map.entries members)
    {text : List Char} (htext : MembersText members text) :
    (NameMap.reader read).Finds (depth + 1) text map := by
  obtain ⟨items, inside, hitems, hinside, rfl⟩ := htext
  constructor
  . rfl
  . intro space rest hspace _
    unfold NameMap.reader
    rw [skipSpace_value hspace rfl]
    simp only [List.cons_append, Reader.inside]
    rw [Reader.objectBody_inside (NameMap.runs_member [] h hnames) hitems hinside]
    rfl

namespace Json

namespace ReadsBack

theorem jsonList {read : Reader α} {value : α → Json} {as : List α}
    (h : ∀ a ∈ as, ReadsBack read (value a) a) :
    ReadsBack (Reader.list read) (jsonList value as) as := by
  apply ReadsBack.list
  rw [List.forall₂_map_left_iff, List.forall₂_same]
  exact h

end ReadsBack

namespace Record

inductive Filled : List (Field α) → List (String × Json) → α → α → Prop where
  | nil {a : α} : Filled [] [] a a
  | present {field : Field α} {fields : List (Field α)} {members : List (String × Json)} {a b : α}
      {j : Json} {set : α → α} (hread : ReadsBack field.read j set)
      (h : Filled fields members (set a) b) :
      Filled (field :: fields) ((field.key, j) :: members) a b

theorem Filled.mandatory {key : String} {read : Reader β} {set : β → α → α}
    {fields : List (Field α)} {members : List (String × Json)} {a b : α} {j : Json} {part : β}
    (hread : ReadsBack read j part) (h : Filled fields members (set part a) b) :
    Filled (.mandatory key read set :: fields) ((key, j) :: members) a b :=
  .present (hread.map set) h

theorem find?_eq_some_of_mem {r : Record α} (hkeys : (r.fields.map (·.key)).Nodup)
    {field : Field α} (hfield : field ∈ r.fields) :
    r.fields.find? (·.key == field.key) = some field := by
  obtain ⟨before, after, hfields⟩ := List.append_of_mem hfield
  rw [hfields, List.map_append, List.nodup_append] at hkeys
  rw [hfields, List.find?_append, List.find?_eq_none.mpr]
  . simp
  . intro f hf heq
    apply hkeys.2.2 f.key (List.mem_map_of_mem hf) field.key (by simp)
    simpa using heq

theorem member_of_known {r : Record α} {field : Field α} (hkeys : (r.fields.map (·.key)).Nodup)
    (hfield : field ∈ r.fields) {progress : Progress α} (hnew : field.key ∉ progress.seen)
    {set : α → α} {text : List Char} {depth : Nat} (hread : field.read.Finds depth text set)
    {cs space rest : List Char} (hcolon : Reader.colon cs = .ok (space ++ (text ++ rest)))
    (hspace : space.all isSpace) (hrest : EndsNumber rest) :
    r.member depth progress field.key cs =
      .ok (⟨field.key :: progress.seen, set progress.value⟩, rest) := by
  unfold member
  simp only [find?_eq_some_of_mem hkeys hfield]
  rw [if_neg (by simpa using hnew), hcolon]
  simp only [bind, Except.bind]
  rw [hread.reads hspace hrest]

theorem finds_of_runs {r : Record α} {depth : Nat} {members : List (String × List Char)}
    {seen : List String} {a : α}
    (hruns : Reader.Runs (r.member depth) ⟨[], r.blank⟩ members ⟨seen, a⟩)
    (hseen : ∀ field ∈ r.fields, field.required = true → field.key ∈ seen) {text : List Char}
    (htext : MembersText members text) : r.read.Finds (depth + 1) text a := by
  have hmissing : r.missing? seen = none := by
    unfold missing?
    rw [Option.map_eq_none_iff, List.find?_eq_none]
    intro field hfield
    have := hseen field hfield
    simpa using this
  obtain ⟨items, inside, hitems, hinside, rfl⟩ := htext
  constructor
  . rfl
  . intro space rest hspace _
    unfold read
    rw [skipSpace_value hspace rfl]
    simp only [List.cons_append, Reader.inside, ofObject]
    rw [Reader.objectBody_inside hruns hitems hinside]
    simp only [bind, Except.bind]
    rw [hmissing]

theorem runs_filled {r : Record α} (hkeys : (r.fields.map (·.key)).Nodup) {style : Style}
    (hstyle : style.Blank) (level : Nat) {depth : Nat} (before : List (Field α))
    {fields : List (Field α)} {members : List (String × Json)} {a b : α}
    (h : Filled fields members a b) (hfields : r.fields = before ++ fields)
    (hheight : ∀ m ∈ members, m.2.height ≤ depth) :
    Reader.Runs (r.member depth) ⟨(before.map (·.key)).reverse, a⟩
      (members.map fun m => (m.1, write style level m.2)) ⟨(r.fields.map (·.key)).reverse, b⟩ := by
  induction h generalizing before with
  | nil =>
    rw [hfields, List.append_nil]
    exact .nil
  | @present field fields members a b j set hread _ ih =>
    rw [List.forall_mem_cons] at hheight
    have hmem : field ∈ r.fields := by simp [hfields]
    have hnew : field.key ∉ (before.map (·.key)).reverse := by
      intro hseen
      rw [hfields, List.map_append, List.nodup_append] at hkeys
      exact hkeys.2.2 field.key (List.mem_reverse.mp hseen) field.key (by simp) rfl
    rw [List.append_cons] at hfields
    have hruns := ih _ hfields hheight.2
    rw [List.map_append, List.map_singleton, List.reverse_append] at hruns
    rw [List.map_cons]
    refine .cons ?_ hruns
    intro cs space rest hcolon hspace hrest
    have hj := hread.finds level hstyle hheight.1
    exact member_of_known hkeys hmem hnew hj hcolon hspace hrest

theorem readsBack {r : Record α} {members : List (String × Json)} {a : α}
    (hkeys : (r.fields.map (·.key)).Nodup) (h : Filled r.fields members r.blank a) :
    ReadsBack r.read (.object members) a := by
  constructor
  intro style level depth hstyle hheight
  cases depth with
  | zero => exact absurd hheight not_height_object_le_zero
  | succ depth =>
    rw [height_object_le] at hheight
    have hruns := runs_filled hkeys hstyle (level + 1) [] h rfl hheight
    apply finds_of_runs hruns _ (membersText_write hstyle level members)
    intro field hfield _
    rw [List.mem_reverse]
    exact List.mem_map_of_mem hfield

end Record

namespace Variant

theorem readsBack_name {variants : List (Variant α)} {name : String} {a : α}
    (hfind : find variants name = .ok (.none a)) :
    ReadsBack (Variant.read variants) (.string name) a := by
  constructor
  intro style level depth _ _
  constructor
  . rfl
  . intro space rest hspace _
    obtain ⟨body, hname, hbody⟩ := (stringText_encode name).stringBody
    unfold read
    rw [skipSpace_value hspace rfl]
    rw [write, hname]
    simp only [List.cons_append, hbody, hfind, bind, Except.bind, Content.ofName]

theorem key_of_quote {space : List Char} (hspace : space.all isSpace) (cs : List Char) :
    key (space ++ '"' :: cs) = stringBody cs := by
  unfold key
  rw [skipSpace_append hspace, skipSpace_cons rfl]
  rfl

theorem readsBack_tagged {variants : List (Variant α)} {name : String} {content : Content α}
    {j : Json} {a : α} (hfind : find variants name = .ok content)
    (hread : ReadsBack content.read j a) :
    ReadsBack (Variant.read variants) (tagged name j) a := by
  constructor
  intro style level depth hstyle hheight
  unfold tagged at hheight ⊢
  cases depth with
  | zero => exact absurd hheight not_height_object_le_zero
  | succ depth =>
    rw [height_object_le] at hheight
    have hj := hread.finds (level + 1) hstyle (hheight (name, j) (by simp))
    obtain ⟨_, _, hitems, hinside, htext⟩ := membersText_write hstyle level [(name, j)]
    rw [htext]
    cases hitems with
    | cons hitem hitems =>
    cases hitems
    cases hinside with
    | cons hbefore htail =>
    have hends := htail.endsNumber (by simp : EndsNumber ['\x7d'])
    cases htail with
    | nil hspace =>
    obtain ⟨body, after, before, rfl, hafter, hbefore', hbody⟩ := hitem.stringBody
    constructor
    . rfl
    . intro space rest hspace' _
      unfold read
      rw [skipSpace_value hspace' rfl]
      simp only [List.cons_append, Reader.inside, ofObject, List.append_assoc]
      rw [key_of_quote hbefore, hbody]
      simp only [hfind, bind, Except.bind]
      rw [Reader.colon_space hafter]
      simp only
      rw [hj.reads hbefore' (by simpa using hends rest)]
      simp only
      rw [skipSpace_append hspace, skipSpace_cons rfl]
      rfl

end Variant

end Json

end SchemaMigration
