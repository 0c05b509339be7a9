import SchemaMigration.NameMap.Document
import SchemaMigration.Proofs.Json.Locality
import SchemaMigration.Proofs.Json.Spelling
import SchemaMigration.Proofs.Sequence

/-!
This module contains that the readers of lists, maps, records and values of any kind are local if
their parts are. An array is read as if its items were read one by one, each by itself, and an
object as if its members were.
-/

namespace SchemaMigration.Json

open Lexeme

namespace Reader

variable {read : Reader α} {depth depth' : Nat} {text : List Char}

theorem Makes.map {r : Except Error α} (h : read.Makes depth text r) (f : α → β) :
    (Reader.map f read).Makes depth text (r.map f) where
  reads := by
    intro rest hrest
    unfold Reader.map
    rw [h.reads hrest]
    cases r <;> rfl

theorem Local.map (h : read.Local) (f : α → β) : (Reader.map f read).Local where
  space := by
    intro depth cs
    unfold Reader.map
    rw [h.space]
  alike := by
    intro depth depth' text htext
    obtain ⟨r, hr, hr'⟩ := h.alike htext
    exact ⟨r.map f, hr.map f, hr'.map f⟩

theorem string_local : Reader.string.Local where
  space := by
    intro depth cs
    unfold Reader.string
    rw [skipSpace_skipSpace]
  alike := by
    intro depth depth' text htext
    have hstarts := htext.valueSyntax.starts
    by_cases hquote : text.head? = some '"'
    . obtain ⟨body, rfl, r, hr⟩ := (htext.valueSyntax.stringSyntax hquote).body
      exact ⟨r, ⟨fun _ => hr _⟩, ⟨fun _ => hr _⟩⟩
    . have hread : ∀ depth rest, Reader.string depth (text ++ rest) =
          mismatch "a string" (text ++ rest) := by
        intro depth rest
        unfold Reader.string
        split
        . next heq => exact absurd (head?_text hstarts heq) hquote
        . rw [skipSpace_text hstarts]
      obtain ⟨r, hr⟩ := makes_of_mismatch htext.valueSyntax hread
      exact ⟨r, hr depth, hr depth'⟩

theorem optional_null (read : Reader α) (depth : Nat) :
    (Reader.optional read).Makes depth ['n', 'u', 'l', 'l'] (.ok none) := ⟨fun _ => rfl⟩

theorem Makes.optional {r : Except Error α} (h : read.Makes depth text r)
    (hstarts : startsValue text) (hnull : text.head? ≠ some 'n') :
    (Reader.optional read).Makes depth text (r.map some) where
  reads := by
    intro rest hrest
    unfold Reader.optional
    split
    . next heq => exact absurd (head?_text hstarts heq) hnull
    . rw [skipSpace_text hstarts, h.reads hrest]
      cases r <;> rfl

theorem Local.optional (h : read.Local) : (Reader.optional read).Local where
  space := by
    intro depth cs
    unfold Reader.optional
    rw [skipSpace_skipSpace]
  alike := by
    intro depth depth' text htext
    have hstarts := htext.valueSyntax.starts
    by_cases hnull : text.head? = some 'n'
    . rw [htext.valueSyntax.eq_null hnull]
      exact ⟨.ok none, optional_null read depth, optional_null read depth'⟩
    . obtain ⟨r, hr, hr'⟩ := h.alike htext
      exact ⟨r.map some, hr.optional hstarts hnull, hr'.optional hstarts hnull⟩

structure LocalAt (read : Reader α) (depth : Nat) (text : List Char) : Prop where
  starts : startsValue text
  reads : ∀ {space rest : List Char}, space.all isSpace → EndsNumber rest →
    read depth (space ++ (text ++ rest)) = (read.alone depth text).map fun a => (a, rest)

theorem Local.at (h : read.Local) (htext : ValueSyntax text) (depth : Nat) :
    read.LocalAt depth text where
  starts := htext.starts
  reads := h.reads htext depth

theorem LocalAt.reads_plain (h : read.LocalAt depth text) {rest : List Char}
    (hrest : EndsNumber rest) :
    read depth (text ++ rest) = (read.alone depth text).map fun a => (a, rest) := by
  have hspace : ([] : List Char).all isSpace := rfl
  exact h.reads hspace hrest

variable {first : Bool} {cs cs' rest : List Char} {rounds : Nat}

theorem items_round (htext : read.LocalAt depth text)
    (hnext : nextItem first cs = .ok (.item (text ++ cs'))) (hends : EndsNumber cs')
    {r : Except Error (List α)}
    (hbehind : items (read depth) rounds false cs' = r.map fun as => (as, rest)) :
    items (read depth) (rounds + 1) first cs =
      (read.alone depth text >>= fun a => r >>= fun as => .ok (a :: as)).map
        fun as => (as, rest) := by
  rw [items, hnext]
  simp only [bind, Except.bind]
  rw [htext.reads_plain hends]
  cases read.alone depth text with
  | error e => rfl
  | ok a =>
    simp only [Except.map]
    rw [hbehind]
    cases r <;> rfl

theorem items_behind_eq {texts : List (List Char)} (htexts : ∀ t ∈ texts, read.LocalAt depth t)
    {tail : List Char} (htail : Behind ']' texts tail) (hrounds : texts.length < rounds)
    (rest : List Char) :
    items (read depth) rounds false (tail ++ rest) =
      (texts.mapM (read.alone depth)).map fun as => (as, rest) := by
  induction htail generalizing rounds with
  | nil hspace =>
    obtain ⟨rounds, rfl⟩ := Nat.exists_eq_add_of_lt hrounds
    simp only [items, List.append_assoc, List.singleton_append]
    rw [nextItem_closing hspace]
    rfl
  | @cons after before text tail texts hafter hbefore htail ih =>
    rw [List.forall_mem_cons] at htexts
    cases rounds with
    | zero => contradiction
    | succ rounds =>
      have hends := htail.endsNumber (by simp : EndsNumber [']']) rest
      simp only [List.append_assoc, List.cons_append]
      rw [List.mapM_cons]
      apply items_round htexts.1 _ hends (ih htexts.2 (by simpa using hrounds))
      rw [nextItem_space hafter]
      exact nextItem_comma hbefore htexts.1.starts _

theorem arrayBody_inside_eq {texts : List (List Char)}
    (htexts : ∀ t ∈ texts, read.LocalAt depth t) {inside : List Char}
    (hinside : Inside ']' texts inside) (rest : List Char) :
    arrayBody (read depth) (inside ++ rest) =
      (texts.mapM (read.alone depth)).map fun as => (as, rest) := by
  unfold arrayBody
  cases hinside with
  | nil hspace =>
    simp only [items, List.append_assoc, List.singleton_append]
    rw [nextItem_closing hspace]
    rfl
  | @cons before text tail texts hbefore htail =>
    rw [List.forall_mem_cons] at htexts
    have hends := htail.endsNumber (by simp : EndsNumber [']']) rest
    have hlength := htail.length_lt
    rw [List.mapM_cons, List.append_assoc, List.append_assoc]
    apply items_round htexts.1 (nextItem_first hbefore htexts.1.starts _) hends
    apply items_behind_eq htexts.2 htail
    simp only [List.length_append]
    omega

theorem Makes.array {texts : List (List Char)} (htexts : ∀ t ∈ texts, read.LocalAt depth t)
    (h : ArrayText texts text) :
    (Reader.list read).Makes (depth + 1) text (texts.mapM (read.alone depth)) where
  reads := by
    intro rest _
    obtain ⟨inside, hinside, rfl⟩ := h
    exact arrayBody_inside_eq htexts hinside rest

theorem list_of_head_ne (hstarts : startsValue text) (hhead : text.head? ≠ some '[')
    (depth : Nat) (rest : List Char) :
    Reader.list read depth (text ++ rest) = mismatch "a sequence" (text ++ rest) := by
  unfold Reader.list
  split
  . next heq => exact absurd (head?_text hstarts heq) hhead
  . rw [skipSpace_text hstarts]

theorem Local.list (h : read.Local) : (Reader.list read).Local where
  space := by
    intro depth cs
    unfold Reader.list
    rw [skipSpace_skipSpace]
  alike := by
    intro depth depth' text htext
    have hother : text.head? ≠ some '[' → ∃ r, ∀ depth, (Reader.list read).Makes depth text r :=
      fun hhead => makes_of_mismatch htext.valueSyntax
        (list_of_head_ne htext.valueSyntax.starts hhead)
    cases htext with
    | scalar h =>
      obtain ⟨r, hr⟩ := hother h.head_ne.1
      exact ⟨r, hr _, hr _⟩
    | @array depth depth' items _ hitems harray =>
      have hmakes := fun depth =>
        Makes.array (fun t ht => h.at (hitems t ht).valueSyntax depth) harray
      have heq : items.mapM (read.alone depth) = items.mapM (read.alone depth') :=
        mapM_congr fun t ht => h.alone_eq (hitems t ht)
      refine ⟨_, hmakes depth, ?_⟩
      rw [heq]
      exact hmakes depth'
    | object _ _ hobject =>
      obtain ⟨_, _, _, _, rfl⟩ := hobject
      obtain ⟨r, hr⟩ := hother (by simp)
      exact ⟨r, hr _, hr _⟩
    | deepArray _ harray =>
      obtain ⟨_, _, rfl⟩ := harray
      exact ⟨.error .nestedTooDeeply, ⟨fun _ => rfl⟩, ⟨fun _ => rfl⟩⟩
    | deepObject _ _ hobject =>
      obtain ⟨_, _, _, _, rfl⟩ := hobject
      obtain ⟨r, hr⟩ := hother (by simp)
      exact ⟨r, hr _, hr _⟩

def Takes (step : σ → String → List Char → Except Error (σ × List Char))
    (own : σ → String → List Char → Except Error σ) (text : List Char) : Prop :=
  ∀ s k {cs before rest : List Char}, colon cs = .ok (before ++ (text ++ rest)) →
    before.all isSpace → EndsNumber rest → step s k cs = (own s k text).map fun s => (s, rest)

def takeMember (own : σ → String → List Char → Except Error σ) (s : σ)
    (m : List Char × List Char) : Except Error σ :=
  Reader.string.alone 0 m.1 >>= fun k => own s k m.2

theorem stringText_of_alone {text : List Char} (h : StringSyntax text) {depth : Nat} {s : String}
    (hread : Reader.string.alone depth text = .ok s) : StringText s text := by
  obtain ⟨body, rfl, hskip⟩ := h.skipString
  have halone : (stringBody body).map (·.1) = .ok s := hread
  cases hbody : stringBody body with
  | error e =>
    rw [hbody] at halone
    contradiction
  | ok result =>
    obtain ⟨s', rest⟩ := result
    rw [hbody] at halone
    obtain rfl := Except.ok.inj halone
    obtain ⟨body', htext, heq⟩ := stringText_of_stringBody hbody
    have hrest := skipString_of_stringBody hbody
    have hnone := hskip []
    rw [List.append_nil, hrest, Except.ok.injEq] at hnone
    dsimp only at heq ⊢
    rwa [heq, hnone, List.append_nil]

theorem key_text {key : List Char} (h : StringSyntax key) (rest : List Char) :
    Reader.key (key ++ rest) = (Reader.string.alone 0 key).map fun k => .key k rest := by
  obtain ⟨body, rfl, r, hr⟩ := h.body
  have hmakes : Reader.string.Makes 0 ('"' :: body) r := ⟨fun _ => hr _⟩
  rw [List.cons_append, key_of_quote, hr, hmakes.alone]
  cases r <;> rfl

variable {step : σ → String → List Char → Except Error (σ × List Char)}
  {own : σ → String → List Char → Except Error σ} {s : σ}

theorem members_round {m : List Char × List Char} {item : List Char} (hkey : StringSyntax m.1)
    (hitem : MemberText m item) (htake : Takes step own m.2)
    (hnext : nextMember first cs = key (item ++ cs')) (hends : EndsNumber cs')
    {r : σ → Except Error σ}
    (hbehind : ∀ s, members step rounds false s cs' = (r s).map fun s => (s, rest)) :
    members step (rounds + 1) first s cs =
      (takeMember own s m >>= r).map fun s => (s, rest) := by
  obtain ⟨after, before, hafter, hbefore, rfl⟩ := hitem
  rw [members, hnext]
  simp only [List.append_assoc, List.cons_append]
  rw [key_text hkey]
  unfold takeMember
  cases Reader.string.alone 0 m.1 with
  | error e => rfl
  | ok k =>
    simp only [Except.map, bind, Except.bind]
    rw [htake s k (colon_space hafter _) hbefore hends]
    cases own s k m.2 with
    | error e => rfl
    | ok s' => exact hbehind s'

theorem members_behind_eq {ms : List (List Char × List Char)}
    (hkeys : ∀ m ∈ ms, StringSyntax m.1) (htake : ∀ m ∈ ms, Takes step own m.2)
    {items : List (List Char)} (hitems : List.Forall₂ MemberText ms items) {tail : List Char}
    (htail : Behind '\x7d' items tail) (hrounds : items.length < rounds) (rest : List Char) :
    members step rounds false s (tail ++ rest) =
      (ms.foldlM (takeMember own) s).map fun s => (s, rest) := by
  induction hitems generalizing s tail rounds with
  | nil =>
    cases htail with
    | nil hspace =>
      obtain ⟨rounds, rfl⟩ := Nat.exists_eq_add_of_lt hrounds
      simp only [members, List.append_assoc, List.singleton_append]
      rw [nextMember_closing hspace]
      rfl
  | cons hitem _ ih =>
    rw [List.forall_mem_cons] at hkeys htake
    cases htail with
    | cons hafter hbefore htail =>
      cases rounds with
      | zero => contradiction
      | succ rounds =>
        have hends := htail.endsNumber (by simp : EndsNumber ['\x7d']) rest
        simp only [List.append_assoc, List.cons_append]
        rw [List.foldlM_cons]
        apply members_round hkeys.1 hitem htake.1 _ hends
        . intro s
          exact ih hkeys.2 htake.2 htail (by simpa using hrounds)
        . exact nextMember_comma hafter hbefore (hitem.head hkeys.1) _

theorem objectBody_inside_eq {ms : List (List Char × List Char)}
    (hkeys : ∀ m ∈ ms, StringSyntax m.1) (htake : ∀ m ∈ ms, Takes step own m.2)
    {items : List (List Char)} (hitems : List.Forall₂ MemberText ms items) {inside : List Char}
    (hinside : Inside '\x7d' items inside) (rest : List Char) :
    objectBody step s (inside ++ rest) =
      (ms.foldlM (takeMember own) s).map fun s => (s, rest) := by
  unfold objectBody
  cases hitems with
  | nil =>
    cases hinside with
    | nil hspace =>
      simp only [members, List.append_assoc, List.singleton_append]
      rw [nextMember_closing hspace]
      rfl
  | cons hitem hitems =>
    rw [List.forall_mem_cons] at hkeys htake
    cases hinside with
    | cons hbefore htail =>
      have hends := htail.endsNumber (by simp : EndsNumber ['\x7d']) rest
      have hlength := htail.length_lt
      rw [List.foldlM_cons, List.append_assoc, List.append_assoc]
      apply members_round hkeys.1 hitem htake.1
        (nextMember_first hbefore (hitem.head hkeys.1) _) hends
      intro s
      apply members_behind_eq hkeys.2 htake.2 hitems htail
      simp only [List.length_append]
      omega

theorem takeMember_congr {own' : σ → String → List Char → Except Error σ}
    {m : List Char × List Char} (h : ∀ s k, own s k m.2 = own' s k m.2) (s : σ) :
    takeMember own s m = takeMember own' s m := by
  unfold takeMember
  congr 1
  funext k
  exact h s k

theorem LocalAt.of_makes {r : Except Error α} (h : read.Makes depth text r)
    (hspace : ∀ cs, read depth (skipSpace cs) = read depth cs) (hstarts : startsValue text) :
    read.LocalAt depth text where
  starts := hstarts
  reads := by
    intro space rest hspace' hrest
    rw [← hspace, skipSpace_value hspace' hstarts, h.reads hrest, h.alone]

theorem value_skipSpace (depth : Nat) (cs : List Char) :
    value depth (skipSpace cs) = value depth cs := by
  unfold value
  rw [skipSpace_skipSpace]

def insertAlone (depth : Nat) (members : List (String × Json)) (key : String) (text : List Char) :
    Except Error (List (String × Json)) :=
  (Reader.alone value depth text).map fun v => insertMember key v members

theorem takes_addMember (h : Reader.LocalAt value depth text) :
    Takes (addMember depth) (insertAlone depth) text := by
  intro members k cs before rest hcolon hspace hrest
  unfold addMember insertAlone
  rw [hcolon]
  simp only [bind, Except.bind]
  rw [h.reads hspace hrest]
  cases Reader.alone value depth text <;> rfl

theorem value_scalar (h : ScalarSyntax text) : ∃ r, ∀ depth, Reader.Makes value depth text r := by
  cases h with
  | null =>
    refine ⟨.ok .null, fun depth => ⟨fun _ => ?_⟩⟩
    exact value_null depth _
  | true =>
    refine ⟨.ok (.bool true), fun depth => ⟨fun _ => ?_⟩⟩
    exact value_true depth _
  | false =>
    refine ⟨.ok (.bool false), fun depth => ⟨fun _ => ?_⟩⟩
    exact value_false depth _
  | number h =>
    obtain ⟨c, cs, htext, hc⟩ := h.head
    obtain ⟨r, hr⟩ := h.number
    refine ⟨r.map .number, fun depth => ⟨?_⟩⟩
    intro rest hrest
    have hnumber := hr hrest
    rw [htext, List.cons_append] at hnumber ⊢
    rw [value_number hc, hnumber]
    cases r <;> rfl
  | string h =>
    obtain ⟨body, rfl, r, hr⟩ := h.body
    refine ⟨r.map .string, fun depth => ⟨?_⟩⟩
    intro rest _
    rw [List.cons_append, value_quote, hr]
    cases r <;> rfl

theorem value_array {texts : List (List Char)}
    (htexts : ∀ t ∈ texts, Reader.LocalAt value depth t) (h : ArrayText texts text) :
    Reader.Makes value (depth + 1) text ((texts.mapM (Reader.alone value depth)).map .array) where
  reads := by
    intro rest _
    obtain ⟨inside, hinside, rfl⟩ := h
    rw [List.cons_append, value_bracket, arrayBody_inside_eq htexts hinside]
    cases texts.mapM (Reader.alone value depth) <;> rfl

theorem value_object {ms : List (List Char × List Char)} (hkeys : ∀ m ∈ ms, StringSyntax m.1)
    (hvalues : ∀ m ∈ ms, Reader.LocalAt value depth m.2) (h : ObjectText ms text) :
    Reader.Makes value (depth + 1) text
      ((ms.foldlM (takeMember (insertAlone depth)) []).map .object) where
  reads := by
    intro rest _
    obtain ⟨items, inside, hitems, hinside, rfl⟩ := h
    have htake : ∀ m ∈ ms, Takes (addMember depth) (insertAlone depth) m.2 :=
      fun m hm => takes_addMember (hvalues m hm)
    rw [List.cons_append, value_brace, objectBody_inside_eq hkeys htake hitems hinside]
    cases ms.foldlM (takeMember (insertAlone depth)) [] <;> rfl

theorem value_alike (h : Alike depth depth' text) :
    ∃ r, Reader.Makes value depth text r ∧ Reader.Makes value depth' text r := by
  induction h with
  | scalar h =>
    obtain ⟨r, hr⟩ := value_scalar h
    exact ⟨r, hr _, hr _⟩
  | @array depth depth' items text hitems harray ih =>
    have hlocal : ∀ item ∈ items,
        Reader.LocalAt value depth item ∧ Reader.LocalAt value depth' item ∧
        Reader.alone value depth item = Reader.alone value depth' item := by
      intro item hitem
      obtain ⟨r, hr, hr'⟩ := ih item hitem
      have hstarts := (hitems item hitem).valueSyntax.starts
      exact ⟨.of_makes hr (value_skipSpace depth) hstarts,
        .of_makes hr' (value_skipSpace depth') hstarts, hr.alone.trans hr'.alone.symm⟩
    have heq := mapM_congr fun item hitem => (hlocal item hitem).2.2
    refine ⟨_, value_array (fun item hitem => (hlocal item hitem).1) harray, ?_⟩
    rw [heq]
    exact value_array (fun item hitem => (hlocal item hitem).2.1) harray
  | @object depth depth' members text hkeys hvalues hobject ih =>
    have hlocal : ∀ m ∈ members,
        Reader.LocalAt value depth m.2 ∧ Reader.LocalAt value depth' m.2 ∧
        Reader.alone value depth m.2 = Reader.alone value depth' m.2 := by
      intro m hm
      obtain ⟨r, hr, hr'⟩ := ih m hm
      have hstarts := (hvalues m hm).valueSyntax.starts
      exact ⟨.of_makes hr (value_skipSpace depth) hstarts,
        .of_makes hr' (value_skipSpace depth') hstarts, hr.alone.trans hr'.alone.symm⟩
    have heq : members.foldlM (takeMember (insertAlone depth)) [] =
        members.foldlM (takeMember (insertAlone depth')) [] := by
      apply foldlM_congr
      intro m hm
      apply takeMember_congr
      intro before k
      rw [insertAlone, insertAlone, (hlocal m hm).2.2]
    refine ⟨_, value_object hkeys (fun m hm => (hlocal m hm).1) hobject, ?_⟩
    rw [heq]
    exact value_object hkeys (fun m hm => (hlocal m hm).2.1) hobject
  | deepArray _ harray =>
    obtain ⟨_, _, rfl⟩ := harray
    exact ⟨.error .nestedTooDeeply, ⟨fun _ => rfl⟩, ⟨fun _ => rfl⟩⟩
  | deepObject _ _ hobject =>
    obtain ⟨_, _, _, _, rfl⟩ := hobject
    exact ⟨.error .nestedTooDeeply, ⟨fun _ => rfl⟩, ⟨fun _ => rfl⟩⟩

theorem value_local : Reader.Local value where
  space := value_skipSpace
  alike := value_alike

def addAlone (read : Reader α) (depth : Nat) (entries : List (String × α)) (name : String)
    (text : List Char) : Except Error (List (String × α)) :=
  read.alone depth text >>= fun a =>
    if entries.any (·.1 == name) then .error (.duplicateKey name) else .ok (entries ++ [(name, a)])

theorem takes_nameMap (h : read.LocalAt depth text) :
    Takes (NameMap.member read depth) (addAlone read depth) text := by
  intro entries name cs before rest hcolon hspace hrest
  unfold NameMap.member addAlone
  rw [hcolon]
  simp only [bind, Except.bind]
  rw [h.reads hspace hrest]
  cases read.alone depth text with
  | error e => rfl
  | ok a =>
    simp only [Except.map]
    split <;> rfl

theorem nameMap_makes {ms : List (List Char × List Char)} (hkeys : ∀ m ∈ ms, StringSyntax m.1)
    (hvalues : ∀ m ∈ ms, read.LocalAt depth m.2) (h : ObjectText ms text) :
    (NameMap.reader read).Makes (depth + 1) text
      ((ms.foldlM (takeMember (addAlone read depth)) []).map NameMap.mk) where
  reads := by
    intro rest _
    obtain ⟨items, inside, hitems, hinside, rfl⟩ := h
    have htake : ∀ m ∈ ms, Takes (NameMap.member read depth) (addAlone read depth) m.2 :=
      fun m hm => takes_nameMap (hvalues m hm)
    have hread : NameMap.reader read (depth + 1) ('\x7b' :: inside ++ rest) =
        objectBody (NameMap.member read depth) [] (inside ++ rest) >>= fun entries =>
          .ok (⟨entries.1⟩, entries.2) := rfl
    rw [hread, objectBody_inside_eq hkeys htake hitems hinside]
    cases ms.foldlM (takeMember (addAlone read depth)) [] <;> rfl

theorem nameMap_of_head_ne (hstarts : startsValue text) (hhead : text.head? ≠ some '\x7b')
    (depth : Nat) (rest : List Char) :
    NameMap.reader read depth (text ++ rest) = mismatch "a map keyed by name" (text ++ rest) := by
  unfold NameMap.reader
  split
  . next heq => exact absurd (head?_text hstarts heq) hhead
  . rw [skipSpace_text hstarts]

theorem Local.nameMap (h : read.Local) : (NameMap.reader read).Local where
  space := by
    intro depth cs
    unfold NameMap.reader
    rw [skipSpace_skipSpace]
  alike := by
    intro depth depth' text htext
    have hother : text.head? ≠ some '\x7b' →
        ∃ r, ∀ depth, (NameMap.reader read).Makes depth text r :=
      fun hhead => makes_of_mismatch htext.valueSyntax
        (nameMap_of_head_ne htext.valueSyntax.starts hhead)
    cases htext with
    | scalar h =>
      obtain ⟨r, hr⟩ := hother h.head_ne.2
      exact ⟨r, hr _, hr _⟩
    | array _ harray | deepArray _ harray =>
      obtain ⟨_, _, rfl⟩ := harray
      obtain ⟨r, hr⟩ := hother (by simp)
      exact ⟨r, hr _, hr _⟩
    | @object depth depth' members _ hkeys hvalues hobject =>
      have hmakes := fun depth =>
        nameMap_makes hkeys (fun m hm => h.at (hvalues m hm).valueSyntax depth) hobject
      have heq : members.foldlM (takeMember (addAlone read depth)) [] =
          members.foldlM (takeMember (addAlone read depth')) [] := by
        apply foldlM_congr
        intro m hm
        apply takeMember_congr
        intro entries name
        rw [addAlone, addAlone, h.alone_eq (hvalues m hm)]
      refine ⟨_, hmakes depth, ?_⟩
      rw [heq]
      exact hmakes depth'
    | deepObject _ _ hobject =>
      obtain ⟨_, _, _, _, rfl⟩ := hobject
      exact ⟨.error .nestedTooDeeply, ⟨fun _ => rfl⟩, ⟨fun _ => rfl⟩⟩

end Reader

end SchemaMigration.Json
