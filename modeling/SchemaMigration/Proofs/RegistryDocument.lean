import SchemaMigration.Compile.Basic
import SchemaMigration.Proofs.ChangeSetSpelling
import SchemaMigration.Proofs.InsertionOrder
import SchemaMigration.Registry.Document

/-!
This module contains the ways to spell registries, and what is read from them. A registry that is
read is the one that comes of registering the members of its document one after the other, so all
models are found in it alike, and every change set is compiled to the same plan.
-/

namespace SchemaMigration

open Json Lexeme

structure WrittenEntity where
  table : String
  primaryKey : Option String

namespace WrittenEntity

def entity (e : WrittenEntity) : Entity :=
  match e.primaryKey with
  | some key => { table := e.table, primaryKey := key }
  | none => { table := e.table }

def fields (e : WrittenEntity) : List (String × String) :=
  e.primaryKey.toList.map (fun key => ("primaryKey", key)) ++ [("table", e.table)]

def keys : List String := ["primaryKey", "table"]

structure Members (e : WrittenEntity) (members : List (String × List Char)) : Prop where
  own : ∃ fields, fields.Perm e.fields ∧
    List.Forall₂ (fun f m => f.1 = m.1 ∧ StringText f.2 m.2) fields
      (members.filter fun m => keys.contains m.1)
  others : ∀ m ∈ members, m.1 ∉ keys → ValueSyntax m.2

/--
A text spells an entity. An array has all fields, so there the primary key is not left out.
-/
def Text (e : WrittenEntity) (text : List Char) : Prop :=
  (∃ members, e.Members members ∧ MembersText members text) ∨
    ∃ key ∈ e.primaryKey, ∃ keyText tableText,
      StringText key keyText ∧ StringText e.table tableText ∧ ArrayText [keyText, tableText] text

def keySlot (key : String) : Slot Entity where
  field := .defaulted "primaryKey" Reader.string fun s e => { e with primaryKey := s }
  set e := { e with primaryKey := key }

def tableSlot (table : String) : Slot Entity where
  field := .mandatory "table" Reader.string fun s e => { e with table := s }
  set e := { e with table := table }

def slots (e : WrittenEntity) : List (Slot Entity) :=
  e.primaryKey.toList.map keySlot ++ [tableSlot e.table]

theorem fill_slots (e : WrittenEntity) : Slot.fill e.slots Entity.record.blank = e.entity := by
  obtain ⟨table, primaryKey⟩ := e
  cases primaryKey <;> rfl

def Reads (depth : Nat) (field : String × String) (s : Slot Entity) : Prop :=
  s.field.key = field.1 ∧ ∀ text, StringText field.2 text → s.field.read.Finds depth text s.set

theorem reads_keySlot (depth : Nat) (key : String) :
    Reads depth ("primaryKey", key) (keySlot key) := by
  refine ⟨rfl, ?_⟩
  intro text h
  have hread := h.finds depth
  exact hread.map fun s (e : Entity) => { e with primaryKey := s }

theorem reads_tableSlot (depth : Nat) (table : String) :
    Reads depth ("table", table) (tableSlot table) := by
  refine ⟨rfl, ?_⟩
  intro text h
  have hread := h.finds depth
  exact hread.map fun s (e : Entity) => { e with table := s }

theorem reads_slots (e : WrittenEntity) (depth : Nat) :
    List.Forall₂ (Reads depth) e.fields e.slots := by
  unfold fields slots
  cases e.primaryKey with
  | none => exact .cons (reads_tableSlot depth e.table) .nil
  | some key => exact .cons (reads_keySlot depth key) (.cons (reads_tableSlot depth e.table) .nil)

theorem field_mem_of_mem_slots {e : WrittenEntity} {s : Slot Entity} (h : s ∈ e.slots) :
    s.field ∈ Entity.record.fields := by
  unfold slots at h
  rw [List.mem_append, List.mem_map, List.mem_singleton] at h
  obtain ⟨_, _, rfl⟩ | rfl := h
  . exact List.mem_cons_self
  . exact List.mem_cons_of_mem _ List.mem_cons_self

theorem nodup_slots (e : WrittenEntity) : (e.slots.map (·.field.key)).Nodup := by
  unfold slots
  cases e.primaryKey <;> simp [keySlot, tableSlot, Field.defaulted, Field.mandatory]

theorem fill_perm {e : WrittenEntity} {present : List (Slot Entity)} (h : present.Perm e.slots) :
    Slot.fill present Entity.record.blank = e.entity := by
  rw [← e.fill_slots]
  apply h.foldl_eq'
  intro s hs t ht b
  have hs := h.mem_iff.mp hs
  have ht := h.mem_iff.mp ht
  unfold slots at hs ht
  rw [List.mem_append, List.mem_map, List.mem_singleton] at hs ht
  obtain ⟨key, hkey, rfl⟩ | rfl := hs
  . obtain ⟨key', hkey', rfl⟩ | rfl := ht
    . rw [Option.mem_toList] at hkey hkey'
      rw [Option.mem_unique hkey hkey']
    . rfl
  . obtain ⟨_, _, rfl⟩ | rfl := ht <;> rfl

theorem forall₂_reads {depth : Nat} {fields : List (String × String)} {present : List (Slot Entity)}
    {members : List (String × List Char)} (hreads : List.Forall₂ (Reads depth) fields present)
    (hown : List.Forall₂ (fun f m => f.1 = m.1 ∧ StringText f.2 m.2) fields members) :
    List.Forall₂ (fun s m => s.field.key = m.1 ∧ s.field.read.Finds depth m.2 s.set) present
      members := by
  induction hreads generalizing members with
  | nil =>
    cases hown
    exact .nil
  | cons hread _ ih =>
    cases hown with
    | cons hm hown => exact .cons ⟨hread.1.trans hm.1, hread.2 _ hm.2⟩ (ih hown)

theorem Members.finds {e : WrittenEntity} {members : List (String × List Char)}
    (h : e.Members members) {text : List Char} (htext : MembersText members text) (depth : Nat) :
    Entity.record.read.Finds (depth + 1) text e.entity := by
  obtain ⟨⟨fields, hperm, hown⟩, hothers⟩ := h
  have hkeys : keys = Entity.record.fields.map (·.key) := rfl
  rw [hkeys] at hown hothers
  obtain ⟨present, hreads, hpresent⟩ := List.perm_comp_forall₂ hperm (e.reads_slots depth)
  have hnodup := (hpresent.map (·.field.key)).nodup_iff.mpr e.nodup_slots
  have hruns := Record.runs_member (by decide) (forall₂_reads hreads hown) hothers
    (fun s hs => field_mem_of_mem_slots (hpresent.mem_iff.mp hs)) hnodup
    (fun _ _ => List.not_mem_nil) Entity.record.blank
  rw [fill_perm hpresent] at hruns
  apply Record.finds_of_runs hruns _ htext
  intro field hfield hrequired
  have htable : tableSlot e.table ∈ present := hpresent.mem_iff.mpr (by simp [slots])
  have hkey : field.key = (tableSlot e.table).field.key := by
    simp only [Entity.record, List.mem_cons, List.not_mem_nil, or_false] at hfield
    obtain rfl | rfl := hfield
    . contradiction
    . rfl
  rw [List.append_nil, List.mem_reverse, hkey]
  exact List.mem_map_of_mem htable

def parts (table key : String) : List Part := [
  .mandatory "primaryKey" (StringText key), .mandatory "table" (StringText table)]

theorem fills (depth : Nat) (table key : String) :
    Entity.record.Fills depth (parts table key) [keySlot key, tableSlot table] ⟨table, key⟩ where
  keys := by decide
  fields := rfl
  fits := by
    have hkey : Slot.Fits Entity.record.blank depth (.mandatory "primaryKey" (StringText key))
        (keySlot key) := by
      refine ⟨rfl, ?_, False.elim⟩
      intro text htext
      obtain htext | ⟨habsent, _⟩ := htext
      . exact (reads_keySlot depth key).2 text htext
      . exact habsent.elim
    exact .cons hkey (.cons (Slot.Fits.mandatory fun _ h => h.finds depth) .nil)
  commute := by simp [keySlot, tableSlot]
  filled := rfl

theorem Text.finds {e : WrittenEntity} {text : List Char} (h : e.Text text) (depth : Nat) :
    Entity.record.read.Finds (depth + 1) text e.entity := by
  obtain ⟨members, hmembers, htext⟩ | ⟨key, hkey, _, _, hkeyText, htableText, htext⟩ := h
  . exact hmembers.finds htext depth
  . have hentity : e.entity = ⟨e.table, key⟩ := by
      unfold entity
      rw [Option.mem_def.mp hkey]
    rw [hentity]
    apply (fills depth e.table key).finds_array _ htext
    exact .cons (.inl hkeyText) (.cons (.inl htableText) (.cut (by simp)))

end WrittenEntity

namespace Registry

def Text (members : List (String × WrittenEntity)) (text : List Char) : Prop :=
  ∃ ms, List.Forall₂ (fun m m' => m.1 = m'.1 ∧ m.2.Text m'.2) members ms ∧ MembersText ms text

def entitiesOf (members : List (String × WrittenEntity)) : List (String × Entity) :=
  members.map fun m => (m.1, m.2.entity)

def registerAll (r : Registry) (entities : List (String × Entity)) : Registry :=
  entities.foldl (fun r (model, entity) => r.register model entity) r

theorem entities_registerAll (r : Registry) (entities : List (String × Entity)) :
    (r.registerAll entities).entities = r.entities.insertAll entities := by
  induction entities generalizing r with
  | nil => rfl
  | cons entry entities ih => exact ih (r.register entry.1 entry.2)

theorem lists_ofList (entities : List (String × Entity)) :
    (ofList entities).entities.Lists entities := by
  have hlists := (NameMap.Lists.empty (α := Entity)).insertAll entities
  rw [List.nil_append] at hlists
  exact (entities_registerAll empty entities) ▸ hlists

theorem lookup_ofList_eq_ok_iff {entities : List (String × Entity)} {model : String}
    {entity : Entity} :
    (ofList entities).lookup model = .ok entity ↔ NameMap.IsLast entities model entity := by
  rw [lookup_eq_ok_iff]
  exact (lists_ofList entities).get? model entity

theorem lookup_ofList_of_notMem {entities : List (String × Entity)} {model : String}
    (h : model ∉ entities.map (·.1)) :
    (ofList entities).lookup model = .error (.unknownModel model) := by
  unfold lookup
  rw [((lists_ofList entities).get?_eq_none_iff model).mpr h]

theorem runs_member {depth : Nat} (r : Registry) {members : List (String × WrittenEntity)}
    {ms : List (String × List Char)}
    (h : List.Forall₂ (fun m m' => m.1 = m'.1 ∧ m.2.Text m'.2) members ms) :
    Reader.Runs (member (depth + 1)) r ms (r.registerAll (entitiesOf members)) := by
  induction h generalizing r with
  | nil => exact .nil
  | @cons m m' members ms hmember _ ih =>
    refine .cons ?_ (ih (r.register m.1 m.2.entity))
    intro cs space rest hcolon hspace hrest
    unfold member
    rw [hcolon, ← hmember.1]
    simp only [bind, Except.bind]
    rw [(hmember.2.finds depth).reads hspace hrest]

theorem Text.finds {members : List (String × WrittenEntity)} {text : List Char}
    (h : Registry.Text members text) (depth : Nat) :
    reader.Finds (depth + 2) text (ofList (entitiesOf members)) := by
  obtain ⟨ms, hmembers, items, inside, hitems, hinside, rfl⟩ := h
  constructor
  . rfl
  . intro space rest hspace _
    unfold reader
    rw [skipSpace_value hspace rfl]
    simp only [List.cons_append, Reader.inside]
    exact Reader.objectBody_inside (runs_member empty hmembers) hitems hinside rest

/--
A registry is read from every document that spells one. It is as if the models had been registered
one after the other: a model has the entity that comes last in the document, whose primary key is
`id` if it is left out, and a model that is not there is unknown. So every relation is resolved
alike, and every change set is compiled alike.
-/
theorem document_registers {members : List (String × WrittenEntity)} {document : String}
    (h : DocumentText (fun _ => Registry.Text members) document) :
    ∃ r, Reader.document reader document = .ok r ∧
      (∀ model, r.lookup model = (ofList (entitiesOf members)).lookup model) ∧
      (∀ model entity, r.lookup model = .ok entity ↔
        NameMap.IsLast (entitiesOf members) model entity) ∧
      (∀ model, model ∉ members.map (·.1) → r.lookup model = .error (.unknownModel model)) ∧
      r.size = (members.map (·.1)).toFinset.card ∧
      (∀ relation, r.resolve relation = (ofList (entitiesOf members)).resolve relation) ∧
      ∀ (options : Options) (cs : ChangeSet),
        cs.compile r options = cs.compile (ofList (entitiesOf members)) options := by
  obtain ⟨before, inner, after, hbefore, hafter, htext, rfl⟩ := h
  have hnames : (entitiesOf members).map (·.1) = members.map (·.1) := by
    unfold entitiesOf
    rw [List.map_map]
    rfl
  refine ⟨ofList (entitiesOf members), (htext.finds _).document hbefore hafter, fun _ => rfl,
    fun _ _ => lookup_ofList_eq_ok_iff, ?_, ?_, fun _ => rfl, fun _ _ => rfl⟩
  . intro model hmodel
    rw [← hnames] at hmodel
    exact lookup_ofList_of_notMem hmodel
  . rw [← hnames]
    exact (lists_ofList _).size_eq

end Registry

-- One model comes twice, the second time with an escape in its name and without a primary key.
def staffMembers : List (String × WrittenEntity) := [
  ("User", ⟨"users", some "uuid"⟩), ("Team", ⟨"teams", some "key"⟩), ("User", ⟨"people", none⟩)]

def staffDocument : String :=
  "\x7b\"User\":\x7b\"table\":\"users\",\"primaryKey\":\"uuid\"\x7d,\"Team\":[\"key\",\"teams\"],"
    ++ "\"\\u0055ser\":\x7b\"note\":0,\"table\":\"people\"\x7d\x7d\n"

def usersText : List Char :=
  '\x7b' :: itemTexts '\x7d' [
    Quoted.encode "table" ++ ':' :: Quoted.encode "users",
    Quoted.encode "primaryKey" ++ ':' :: Quoted.encode "uuid"]

def teamsText : List Char :=
  '[' :: itemTexts ']' [Quoted.encode "key", Quoted.encode "teams"]

def peopleText : List Char :=
  '\x7b' :: itemTexts '\x7d' [
    Quoted.encode "note" ++ ':' :: ['0'],
    Quoted.encode "table" ++ ':' :: Quoted.encode "people"]

theorem usersText_spells : (⟨"users", some "uuid"⟩ : WrittenEntity).Text usersText := by
  left
  refine ⟨[("table", Quoted.encode "users"), ("primaryKey", Quoted.encode "uuid")],
    ⟨⟨[("table", "users"), ("primaryKey", "uuid")], .swap _ _ _, ?_⟩, ?_⟩, _, _, ?_,
    inside_itemTexts _ _, rfl⟩
  . apply List.Forall₂.cons ⟨rfl, stringText_encode _⟩
    exact .cons ⟨rfl, stringText_encode _⟩ .nil
  . simp [WrittenEntity.keys]
  . exact .cons (memberItem_encode _ _) (.cons (memberItem_encode _ _) .nil)

theorem teamsText_spells : (⟨"teams", some "key"⟩ : WrittenEntity).Text teamsText :=
  .inr ⟨"key", rfl, _, _, stringText_encode _, stringText_encode _, _, inside_itemTexts _ _, rfl⟩

theorem peopleText_spells : (⟨"people", none⟩ : WrittenEntity).Text peopleText := by
  left
  refine ⟨[("note", ['0']), ("table", Quoted.encode "people")],
    ⟨⟨[("table", "people")], .refl _, ?_⟩, ?_⟩, _, _, ?_, inside_itemTexts _ _, rfl⟩
  . exact .cons ⟨rfl, stringText_encode _⟩ .nil
  . simp [WrittenEntity.keys, valueSyntax_zero]
  . exact .cons (memberItem_encode _ _) (.cons (memberItem_encode _ _) .nil)

theorem stringText_user : StringText "User" "\"\\u0055ser\"".toList := by
  refine ⟨[['\\', 'u', '0', '0', '5', '5'], ['s'], ['e'], ['r']], ?_, rfl⟩
  apply List.Forall₂.cons (.unit rfl)
  apply List.Forall₂.cons (.plain (by decide) (by decide) (by decide))
  apply List.Forall₂.cons (.plain (by decide) (by decide) (by decide))
  apply List.Forall₂.cons (.plain (by decide) (by decide) (by decide))
  exact .nil

def staffText : List Char :=
  '\x7b' :: itemTexts '\x7d' [
    Quoted.encode "User" ++ ':' :: usersText,
    Quoted.encode "Team" ++ ':' :: teamsText,
    "\"\\u0055ser\"".toList ++ ':' :: peopleText]

theorem staffText_spells : Registry.Text staffMembers staffText := by
  refine ⟨[("User", usersText), ("Team", teamsText), ("User", peopleText)], ?_, _, _, ?_,
    inside_itemTexts _ _, rfl⟩
  . apply List.Forall₂.cons ⟨rfl, usersText_spells⟩
    apply List.Forall₂.cons ⟨rfl, teamsText_spells⟩
    exact .cons ⟨rfl, peopleText_spells⟩ .nil
  . apply List.Forall₂.cons (memberItem_encode _ _)
    apply List.Forall₂.cons (memberItem_encode _ _)
    exact .cons ⟨_, stringText_user, [], [], rfl, rfl, rfl⟩ .nil

set_option maxRecDepth 2000 in
theorem staffDocument_spells : DocumentText (fun _ => Registry.Text staffMembers) staffDocument :=
  ⟨[], staffText, ['\n'], rfl, rfl, staffText_spells, rfl⟩

theorem staffDocument_registers :
    DocumentText (fun _ => Registry.Text staffMembers) staffDocument ∧
    ∃ r, Reader.document Registry.reader staffDocument = .ok r ∧
      r.lookup "User" = .ok ⟨"people", "id"⟩ ∧ r.lookup "Team" = .ok ⟨"teams", "key"⟩ ∧
      r.lookup "Post" = .error (.unknownModel "Post") ∧ r.size = 2 := by
  obtain ⟨r, hread, _, hlast, hunknown, hsize, _, _⟩ :=
    Registry.document_registers staffDocument_spells
  refine ⟨staffDocument_spells, r, hread, ?_, ?_, ?_, ?_⟩
  . rw [hlast]
    exact ⟨Registry.entitiesOf (staffMembers.take 2), [], rfl, by simp⟩
  . rw [hlast]
    exact ⟨Registry.entitiesOf (staffMembers.take 1), [("User", ⟨"people", "id"⟩)], rfl, by simp⟩
  . exact hunknown "Post" (by decide)
  . rw [hsize]
    decide

end SchemaMigration
