import SchemaMigration.Proofs.Json.LocalRecords
import SchemaMigration.Proofs.Json.RecordText

/-!
This module contains what comes of reading a map whose members are known. Each value is read as if
it stood in a document of its own, and the values come in the order of the members. A name that is
there twice is a fault, but only once the second value is read.
-/

namespace SchemaMigration

open Json Lexeme

namespace NameMap

variable {α : Type} {read : Reader α} {depth : Nat}

def Spelled (members : List (String × List Char)) (ms : List (List Char × List Char)) : Prop :=
  List.Forall₂ (fun m m' => StringText m.1 m'.1 ∧ m.2 = m'.2) members ms

theorem objectText_of_membersText {members : List (String × List Char)} {text : List Char}
    (h : MembersText members text) : ∃ ms, ObjectText ms text ∧ Spelled members ms := by
  obtain ⟨items, inside, hitems, hinside, rfl⟩ := h
  have hkeys : ∃ ms, List.Forall₂ MemberText ms items ∧ Spelled members ms := by
    clear hinside
    induction hitems with
    | nil => exact ⟨[], .nil, .nil⟩
    | @cons m item members items hitem _ ih =>
      obtain ⟨key, hkey, hmember⟩ := hitem
      obtain ⟨ms, hms, hmembers⟩ := ih
      exact ⟨(key, m.2) :: ms, .cons hmember hms, .cons ⟨hkey, rfl⟩ hmembers⟩
  obtain ⟨ms, hms, hmembers⟩ := hkeys
  exact ⟨ms, ⟨items, inside, hms, hinside, rfl⟩, hmembers⟩

section Spelled

variable {members : List (String × List Char)} {ms : List (List Char × List Char)}

theorem Spelled.keys (h : Spelled members ms) : ∀ m ∈ ms, StringSyntax m.1 := by
  intro m' hm'
  obtain ⟨m, _, hkey, _⟩ := exists_of_forall₂_of_mem h hm'
  exact hkey.stringSyntax

theorem Spelled.values (h : Spelled members ms) {P : List Char → Prop} :
    (∀ m ∈ members, P m.2) ↔ ∀ m ∈ ms, P m.2 := by
  constructor
  . intro hvalues m' hm'
    obtain ⟨m, hm, _, heq⟩ := exists_of_forall₂_of_mem h hm'
    rw [← heq]
    exact hvalues m hm
  . intro hvalues m hm
    obtain ⟨m', hm', _, heq⟩ := exists_of_forall₂_of_mem h.flip hm
    rw [heq]
    exact hvalues m' hm'

end Spelled

theorem valueSyntax_of_membersText {members : List (String × List Char)} {text : List Char}
    (h : MembersText members text) (hvalues : ∀ m ∈ members, ValueSyntax m.2) :
    ValueSyntax text := by
  obtain ⟨ms, hobject, hms⟩ := objectText_of_membersText h
  exact .object hms.keys (hms.values.mp hvalues) hobject

theorem foldlM_takeMember {own : σ → String → List Char → Except Json.Error σ}
    {members : List (String × List Char)} {ms : List (List Char × List Char)}
    (h : Spelled members ms) (s : σ) :
    ms.foldlM (Reader.takeMember own) s = members.foldlM (fun s m => own s m.1 m.2) s := by
  induction h generalizing s with
  | nil => rfl
  | @cons m m' members ms hm _ ih =>
    rw [List.foldlM_cons, List.foldlM_cons, Reader.takeMember, (hm.1.finds 0).alone, ← hm.2]
    congr 1
    funext s'
    exact ih s'

def addMembers (read : Reader α) (depth : Nat) (before : List (String × α))
    (members : List (String × List Char)) : Except Json.Error (List (String × α)) :=
  members.foldlM (fun entries m => Reader.addAlone read depth entries m.1 m.2) before

theorem reader_makes (h : read.Local) {members : List (String × List Char)} {text : List Char}
    (htext : MembersText members text) (hvalues : ∀ m ∈ members, ValueSyntax m.2) :
    (NameMap.reader read).Makes (depth + 1) text
      ((addMembers read depth [] members).map NameMap.mk) := by
  obtain ⟨ms, hobject, hms⟩ := objectText_of_membersText htext
  unfold addMembers
  rw [← foldlM_takeMember hms]
  have hlocal : ∀ m ∈ members, read.LocalAt depth m.2 := fun m hm => h.at (hvalues m hm) depth
  exact Reader.nameMap_makes hms.keys (hms.values.mp hlocal) hobject

section Members

variable {before entries : List (String × α)} {name : String} {text : List Char} {a : α}

theorem addAlone_new (hread : read.alone depth text = .ok a) (hnew : name ∉ before.map (·.1)) :
    Reader.addAlone read depth before name text = .ok (before ++ [(name, a)]) := by
  have hany : before.any (·.1 == name) = false := by
    rw [List.any_eq_false]
    intro entry hentry heq
    apply hnew
    rw [← beq_iff_eq.mp heq]
    exact List.mem_map_of_mem hentry
  unfold Reader.addAlone
  rw [hread]
  simp [bind, Except.bind, hany]

theorem addAlone_old (hread : read.alone depth text = .ok a) (hold : name ∈ before.map (·.1)) :
    Reader.addAlone read depth before name text = .error (.duplicateKey name) := by
  obtain ⟨entry, hentry, hname⟩ := List.mem_map.mp hold
  have hany : before.any (·.1 == name) = true :=
    List.any_eq_true.mpr ⟨entry, hentry, by simpa using hname⟩
  unfold Reader.addAlone
  rw [hread]
  simp [bind, Except.bind, hany]

theorem addAlone_error {e : Json.Error} (hread : read.alone depth text = .error e) :
    Reader.addAlone read depth before name text = .error e := by
  unfold Reader.addAlone
  rw [hread]
  rfl

variable {members after : List (String × List Char)} {m : String × List Char}

theorem addMembers_cons :
    addMembers read depth before (m :: members) =
      Reader.addAlone read depth before m.1 m.2 >>= fun entries =>
        addMembers read depth entries members := List.foldlM_cons ..

theorem addMembers_append :
    addMembers read depth before (members ++ after) =
      addMembers read depth before members >>= fun entries =>
        addMembers read depth entries after := List.foldlM_append ..

theorem addMembers_distinct
    (h : List.Forall₂ (fun e m => e.1 = m.1 ∧ read.alone depth m.2 = .ok e.2) entries members)
    (hnames : ((before ++ entries).map (·.1)).Nodup) :
    addMembers read depth before members = .ok (before ++ entries) := by
  induction h generalizing before with
  | nil =>
    rw [List.append_nil]
    rfl
  | @cons e m entries members hentry _ ih =>
    obtain ⟨hname, hread⟩ := hentry
    have hnew : m.1 ∉ before.map (·.1) := by
      rw [List.map_append, List.nodup_append] at hnames
      intro hmem
      exact hnames.2.2 m.1 hmem e.1 (by simp) hname.symm
    rw [List.append_cons] at hnames ⊢
    rw [addMembers_cons, addAlone_new hread hnew, ← hname]
    exact ih hnames

theorem nodup_of_addMembers (hbefore : (before.map (·.1)).Nodup)
    (h : addMembers read depth before members = .ok entries) :
    (before.map (·.1) ++ members.map (·.1)).Nodup := by
  induction members generalizing before with
  | nil => rwa [List.map_nil, List.append_nil]
  | cons m members ih =>
    rw [addMembers_cons, bind_eq_ok_iff] at h
    obtain ⟨between, hbetween, h⟩ := h
    unfold Reader.addAlone at hbetween
    rw [bind_eq_ok_iff] at hbetween
    obtain ⟨a, ha, hbetween⟩ := hbetween
    split at hbetween
    . contradiction
    . next hany =>
      rw [Except.ok.injEq] at hbetween
      rw [← hbetween] at h
      have hnew : m.1 ∉ before.map (·.1) := by
        intro hmem
        obtain ⟨entry, hentry, hname⟩ := List.mem_map.mp hmem
        exact hany (List.any_eq_true.mpr ⟨entry, hentry, by simpa using hname⟩)
      have hnames : ((before ++ [(m.1, a)]).map (·.1)).Nodup := by
        rw [List.map_append, List.nodup_append]
        grind
      simpa using ih hnames h

theorem forall₂_of_addMembers
    (h : addMembers read depth before members = .ok entries) :
    ∃ added, entries = before ++ added ∧
      List.Forall₂ (fun e m => e.1 = m.1 ∧ read.alone depth m.2 = .ok e.2) added members := by
  induction members generalizing before with
  | nil =>
    obtain rfl := Except.ok.inj h
    exact ⟨[], (List.append_nil _).symm, .nil⟩
  | cons m members ih =>
    rw [addMembers_cons, bind_eq_ok_iff] at h
    obtain ⟨between, hbetween, h⟩ := h
    obtain ⟨added, rfl, hadded⟩ := ih h
    unfold Reader.addAlone at hbetween
    rw [bind_eq_ok_iff] at hbetween
    obtain ⟨a, ha, hbetween⟩ := hbetween
    split at hbetween
    . contradiction
    . rw [Except.ok.injEq] at hbetween
      rw [← hbetween]
      exact ⟨(m.1, a) :: added, by simp, .cons ⟨rfl, ha⟩ hadded⟩

theorem addMembers_eq_ok_iff :
    addMembers read depth [] members = .ok entries ↔ (entries.map (·.1)).Nodup ∧
      List.Forall₂ (fun e m => e.1 = m.1 ∧ read.alone depth m.2 = .ok e.2) entries members := by
  constructor
  . intro h
    obtain ⟨added, heq, hadded⟩ := forall₂_of_addMembers h
    rw [List.nil_append] at heq
    rw [← heq] at hadded
    refine ⟨?_, hadded⟩
    rw [map_eq_map_of_forall₂ hadded fun _ _ hentry => hentry.1]
    exact nodup_of_addMembers (by simp) h
  . rintro ⟨hnames, hentries⟩
    exact addMembers_distinct hentries hnames

theorem exists_entries (h : ∀ m ∈ members, ∃ a, read.alone depth m.2 = .ok a) :
    ∃ entries : List (String × α), entries.map (·.1) = members.map (·.1) ∧
      List.Forall₂ (fun e m => e.1 = m.1 ∧ read.alone depth m.2 = .ok e.2) entries members := by
  have hentry : ∀ m ∈ members, ∃ e : String × α, e.1 = m.1 ∧ read.alone depth m.2 = .ok e.2 := by
    intro m hm
    obtain ⟨a, ha⟩ := h m hm
    exact ⟨(m.1, a), rfl, ha⟩
  obtain ⟨entries, hentries⟩ := exists_forall₂ hentry
  exact ⟨entries, map_eq_map_of_forall₂ hentries fun _ _ hentry => hentry.1, hentries⟩

theorem addMembers_fault {e : Json.Error} (hnames : (members.map (·.1)).Nodup)
    (h : ∀ m ∈ members, ∃ a, read.alone depth m.2 = .ok a)
    (hm : ∀ entries : List (String × α), entries.map (·.1) = members.map (·.1) →
      Reader.addAlone read depth entries m.1 m.2 = .error e) :
    addMembers read depth [] (members ++ m :: after) = .error e := by
  obtain ⟨entries, heq, hentries⟩ := exists_entries h
  rw [← heq] at hnames
  have hmembers : addMembers read depth [] members = .ok ([] ++ entries) :=
    addMembers_distinct hentries hnames
  rw [addMembers_append, hmembers, List.nil_append]
  simp only [bind, Except.bind]
  rw [addMembers_cons, hm entries heq]
  rfl

end Members

def own (read : Reader α) (text : List Char) : Except Json.Error α :=
  Reader.document read (String.ofList text)

structure HasMembers (document : String) (members : List (String × List Char)) : Prop where
  text : DocumentText (fun _ => MembersText members) document
  nested : ∀ m ∈ members, NestedSyntax (maxDepth - 1) m.2

theorem own_eq_alone (h : read.Local) {text : List Char}
    (htext : NestedSyntax (maxDepth - 1) text) :
    own read text = read.alone (maxDepth - 1) text := by
  have hnone : ([] : List Char).all isSpace := rfl
  have halike := htext.alike (Nat.le_refl _) (Nat.sub_le maxDepth 1)
  have hdocument := h.document halike.valueSyntax hnone hnone
  rw [List.append_nil, List.nil_append] at hdocument
  rw [own, hdocument]
  exact (h.alone_eq halike).symm

theorem HasMembers.document (h : read.Local) {document : String}
    {members : List (String × List Char)} (hdocument : HasMembers document members) :
    Reader.document (NameMap.reader read) document =
      (addMembers read (maxDepth - 1) [] members).map NameMap.mk := by
  obtain ⟨⟨before, text, after, hbefore, hafter, htext, rfl⟩, hnested⟩ := hdocument
  have hvalues : ∀ m ∈ members, ValueSyntax m.2 := fun m hm =>
    ((hnested m hm).alike (Nat.le_refl _) (Nat.le_refl _)).valueSyntax
  rw [h.nameMap.document (valueSyntax_of_membersText htext hvalues) hbefore hafter]
  exact (reader_makes h htext hvalues).alone

/--
A map is read member by member. If the names differ, the entries are those of the members, in their
order. A name that is there for the second time is the fault, unless a value up to there is faulty
by itself: then the first such value is.
-/
structure ReadsMembers (read : Reader α) : Prop where
  distinct : ∀ {document : String} {members : List (String × List Char)}
    {entries : List (String × α)}, HasMembers document members → (members.map (·.1)).Nodup →
    List.Forall₂ (fun e m => e.1 = m.1 ∧ own read m.2 = .ok e.2) entries members →
    Reader.document (NameMap.reader read) document = .ok ⟨entries⟩
  fails : ∀ {document : String} {members : List (String × List Char)},
    HasMembers document members → ¬(members.map (·.1)).Nodup →
    ∃ e, Reader.document (NameMap.reader read) document = .error e
  repeated : ∀ {document : String} {before after : List (String × List Char)}
    {m : String × List Char}, HasMembers document (before ++ m :: after) →
    (before.map (·.1)).Nodup → m.1 ∈ before.map (·.1) →
    (∀ m' ∈ before ++ [m], ∃ a, own read m'.2 = .ok a) →
    Reader.document (NameMap.reader read) document = .error (.duplicateKey m.1) ∧
      (Json.Error.duplicateKey m.1).message = "duplicate key '" ++ m.1 ++ "'"
  unreadable : ∀ {document : String} {before after : List (String × List Char)}
    {m : String × List Char} {e : Json.Error}, HasMembers document (before ++ m :: after) →
    (before.map (·.1)).Nodup → (∀ m' ∈ before, ∃ a, own read m'.2 = .ok a) →
    own read m.2 = .error e → Reader.document (NameMap.reader read) document = .error e

theorem readsMembers (h : read.Local) : ReadsMembers read where
  distinct := by
    intro document members entries hdocument hnames hentries
    have heq : entries.map (·.1) = members.map (·.1) :=
      map_eq_map_of_forall₂ hentries fun _ _ hentry => hentry.1
    have halone : List.Forall₂
        (fun e m => e.1 = m.1 ∧ read.alone (maxDepth - 1) m.2 = .ok e.2) entries members := by
      rw [List.forall₂_iff_zip] at hentries ⊢
      refine ⟨hentries.1, ?_⟩
      intro e m hmem
      rw [← own_eq_alone h (hdocument.nested m (List.of_mem_zip hmem).2)]
      exact hentries.2 hmem
    rw [← heq] at hnames
    have hmembers : addMembers read (maxDepth - 1) [] members = .ok ([] ++ entries) :=
      addMembers_distinct halone hnames
    rw [hdocument.document h, hmembers]
    rfl
  fails := by
    intro document members hdocument hnames
    rw [hdocument.document h]
    cases hmembers : addMembers read (maxDepth - 1) [] members with
    | error e => exact ⟨e, rfl⟩
    | ok entries => exact absurd (nodup_of_addMembers (by simp) hmembers) hnames
  repeated := by
    intro document before after m hdocument hnames hm hread
    have halone : ∀ m' ∈ before ++ [m], ∃ a, read.alone (maxDepth - 1) m'.2 = .ok a := by
      intro m' hm'
      rw [← own_eq_alone h (hdocument.nested m' (by simp_all; tauto))]
      exact hread m' hm'
    rw [List.forall_mem_append, List.forall_mem_singleton] at halone
    obtain ⟨a, ha⟩ := halone.2
    refine ⟨?_, rfl⟩
    rw [hdocument.document h, addMembers_fault hnames halone.1]
    . rfl
    . intro entries heq
      rw [← heq] at hm
      exact addAlone_old ha hm
  unreadable := by
    intro document before after m e hdocument hnames hread hm
    have halone : ∀ m' ∈ before, ∃ a, read.alone (maxDepth - 1) m'.2 = .ok a := by
      intro m' hm'
      rw [← own_eq_alone h (hdocument.nested m' (List.mem_append_left _ hm'))]
      exact hread m' hm'
    rw [own_eq_alone h (hdocument.nested m (by simp))] at hm
    rw [hdocument.document h, addMembers_fault hnames halone]
    . rfl
    . intro entries _
      exact addAlone_error hm

end NameMap

/--
The maps of tables, of columns that are defined and of columns that are dropped are all read member
by member.
-/
theorem ChangeSet.maps_readsMembers :
    NameMap.ReadsMembers TableChange.record.read ∧ NameMap.ReadsMembers ColumnDef.record.read ∧
    NameMap.ReadsMembers ColumnDrop.record.read := by
  refine ⟨?_, ?_, ?_⟩
  . exact NameMap.readsMembers (Record.read_local TableChange.fields_local)
  . exact NameMap.readsMembers (Record.read_local ColumnDef.fields_local)
  . exact NameMap.readsMembers (Record.read_local ColumnDrop.fields_local)

-- The second name is spelled in another way, and the fault behind it is not met.
def repeatedColumns : String :=
  "\x7b\"id\":\x7b\x7d, \"\\u0069d\" :\x7b\x7d,\"x\":0\x7d"

theorem stringText_id : StringText "id" "\"\\u0069d\"".toList := by
  refine ⟨[['\\', 'u', '0', '0', '6', '9'], ['d']], ?_, rfl⟩
  apply List.Forall₂.cons (.unit rfl)
  apply List.Forall₂.cons (.plain (by decide) (by decide) (by decide))
  exact .nil

theorem nestedSyntax_braces (n : Nat) : NestedSyntax (n + 1) ['\x7b', '\x7d'] := by
  refine @NestedSyntax.object n [] _ (by simp) (by simp) ⟨[], _, .nil, ?_, rfl⟩
  exact @Inside.nil '\x7d' [] rfl

theorem nestedSyntax_zero (n : Nat) : NestedSyntax n ['0'] := by
  refine .scalar (.number ?_)
  exact @NumberSyntax.mk [] ['0'] [] [] (by simp) (by simp [Digits]) (by simp) .absent .absent

theorem repeatedColumns_hasMembers :
    NameMap.HasMembers repeatedColumns
      ([("id", ['\x7b', '\x7d'])] ++ ("id", ['\x7b', '\x7d']) :: [("x", ['0'])]) where
  text := by
    have hitems : List.Forall₂ MemberItem
        ([("id", ['\x7b', '\x7d'])] ++ ("id", ['\x7b', '\x7d']) :: [("x", ['0'])])
        ["\"id\":\x7b\x7d".toList, "\"\\u0069d\" :\x7b\x7d".toList, "\"x\":0".toList] := by
      apply List.Forall₂.cons ⟨_, stringText_encode "id", [], [], rfl, rfl, rfl⟩
      apply List.Forall₂.cons ⟨_, stringText_id, [' '], [], rfl, rfl, rfl⟩
      apply List.Forall₂.cons ⟨_, stringText_encode "x", [], [], rfl, rfl, rfl⟩
      exact .nil
    have hend : Behind '\x7d' [] ['\x7d'] := @Behind.nil '\x7d' [] rfl
    have hlast := @Behind.cons '\x7d' [] [] "\"x\":0".toList _ _ rfl rfl hend
    have hsecond := @Behind.cons '\x7d' [] [' '] "\"\\u0069d\" :\x7b\x7d".toList _ _ rfl rfl hlast
    have hinside := @Inside.cons '\x7d' [] "\"id\":\x7b\x7d".toList _ _ rfl hsecond
    exact ⟨[], _, [], rfl, rfl, ⟨_, _, hitems, hinside, rfl⟩, rfl⟩
  nested := by
    simp only [List.singleton_append, List.forall_mem_cons]
    exact ⟨nestedSyntax_braces 125, nestedSyntax_braces 125, nestedSyntax_zero 126, by simp⟩

theorem repeatedColumns_fault :
    Reader.document (NameMap.reader ColumnDrop.record.read) repeatedColumns =
      .error (.duplicateKey "id") := by
  have hread : ∀ m ∈ [("id", ['\x7b', '\x7d'])] ++ [("id", ['\x7b', '\x7d'])],
      ∃ c, NameMap.own ColumnDrop.record.read m.2 = .ok c := by
    intro m hm
    refine ⟨{}, ?_⟩
    simp at hm
    rw [hm]
    rfl
  exact (ChangeSet.maps_readsMembers.2.2.repeated repeatedColumns_hasMembers (by simp) (by simp)
    hread).1

end SchemaMigration
