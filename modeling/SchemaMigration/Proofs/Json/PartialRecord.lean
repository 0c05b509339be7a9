import SchemaMigration.Proofs.Json.Agreement
import SchemaMigration.Proofs.Json.Locality

/-!
This module contains records that are a part of another one: an object that is read as the whole
record is read as the part too. The values of the other fields, which the whole record reads and
the part skips, end at the same place.
-/

namespace SchemaMigration.Json

open Lexeme

theorem Reader.members_simulate {step : σ → String → List Char → Except Error (σ × List Char)}
    {step' : τ → String → List Char → Except Error (τ × List Char)} {R : σ → τ → Prop}
    (hstep : ∀ s t key cs s' rest, R s t → step s key cs = .ok (s', rest) →
      ∃ t', step' t key cs = .ok (t', rest) ∧ R s' t')
    {rounds : Nat} {first : Bool} {s s' : σ} {t : τ} {cs rest : List Char} (hR : R s t)
    (h : members step rounds first s cs = .ok (s', rest)) :
    ∃ t', members step' rounds first t cs = .ok (t', rest) ∧ R s' t' := by
  induction rounds generalizing first s t cs with
  | zero => contradiction
  | succ rounds ih =>
    unfold members at h ⊢
    rw [bind_eq_ok_iff] at h
    obtain ⟨next, hnext, h⟩ := h
    rw [hnext]
    cases next with
    | closed rest' =>
      simp only [Except.ok.injEq, Prod.mk.injEq] at h
      obtain ⟨rfl, rfl⟩ := h
      exact ⟨t, rfl, hR⟩
    | key key cs' =>
      simp only [bind_eq_ok_iff] at h
      obtain ⟨⟨s'', cs''⟩, hs'', h⟩ := h
      obtain ⟨t'', ht'', hR''⟩ := hstep _ _ _ _ _ _ hR hs''
      simp only [bind, Except.bind]
      rw [ht'']
      exact ih hR'' h

theorem Reader.map_eq_ok_iff {f : α → β} {read : Reader α} {depth : Nat} {cs rest : List Char}
    {b : β} : Reader.map f read depth cs = .ok (b, rest) ↔
      ∃ a, read depth cs = .ok (a, rest) ∧ f a = b := by
  unfold Reader.map
  rw [bind_eq_ok_iff]
  simp only [Except.ok.injEq, Prod.mk.injEq, Prod.exists]
  constructor
  . rintro ⟨a, rest', hread, hb, rfl⟩
    exact ⟨a, hread, hb⟩
  . rintro ⟨a, hread, hb⟩
    exact ⟨a, rest, hread, hb, rfl⟩

def Reader.Spares (read : Reader (α → α)) (f : α → β) : Prop :=
  ∀ (depth : Nat) (cs rest : List Char) (set : α → α),
    read depth cs = .ok (set, rest) → ∀ a, f (set a) = f a

theorem Reader.map_spares {read : Reader γ} {set : γ → α → α} {f : α → β}
    (h : ∀ c a, f (set c a) = f a) : (Reader.map set read).Spares f := by
  intro depth cs rest set' hread a
  obtain ⟨c, _, rfl⟩ := Reader.map_eq_ok_iff.mp hread
  exact h c a

theorem Field.mandatory_spares {key : String} {read : Reader γ} {set : γ → α → α} {f : α → β}
    (h : ∀ c a, f (set c a) = f a) : (Field.mandatory key read set).read.Spares f :=
  Reader.map_spares h

theorem Field.defaulted_spares {key : String} {read : Reader γ} {set : γ → α → α} {f : α → β}
    (h : ∀ c a, f (set c a) = f a) : (Field.defaulted key read set).read.Spares f :=
  Reader.map_spares h

theorem Field.defaulted_shared {key : String} {read : Reader γ} {set : γ → β → β}
    {set' : γ → α → α} {f : α → β} (h : ∀ c a, f (set' c a) = set c (f a)) {depth : Nat}
    {cs rest : List Char} {g' : α → α}
    (hread : (Field.defaulted key read set').read depth cs = .ok (g', rest)) :
    ∃ g, (Field.defaulted key read set).read depth cs = .ok (g, rest) ∧
      ∀ a, f (g' a) = g (f a) := by
  obtain ⟨c, hc, rfl⟩ := Reader.map_eq_ok_iff.mp hread
  exact ⟨set c, Reader.map_eq_ok_iff.mpr ⟨c, hc, rfl⟩, h c⟩

namespace Record

theorem read_of_brace {r : Record α} {depth : Nat} {cs body : List Char}
    (h : skipSpace cs = '\x7b' :: body) :
    r.read depth cs = Reader.inside depth fun depth => r.ofObject depth body := by
  unfold read
  rw [h]
  rfl

/--
A record is a part of another one. The fields of the part are read as they are in the whole, and
the other fields make no difference to it.
-/
structure PartOf (part : Record β) (whole : Record α) (f : α → β) : Prop where
  agrees : ∀ field ∈ whole.fields, field.read.Agrees
  blank : f whole.blank = part.blank
  optional : ∀ field ∈ part.fields, field.required = false
  shared : ∀ {key : String} {field : Field β},
    part.fields.find? (·.key == key) = some field →
    ∃ field', whole.fields.find? (·.key == key) = some field' ∧
      ∀ {depth : Nat} {cs rest : List Char} {set' : α → α},
        field'.read depth cs = .ok (set', rest) →
        ∃ set, field.read depth cs = .ok (set, rest) ∧ ∀ a, f (set' a) = set (f a)
  others : ∀ {key : String} {field : Field α},
    part.fields.find? (·.key == key) = none →
    whole.fields.find? (·.key == key) = some field → field.read.Spares f

namespace PartOf

variable {part : Record β} {whole : Record α} {f : α → β}

structure Follows (f : α → β) (progress : Progress α) (progress' : Progress β) : Prop where
  seen : ∀ key ∈ progress'.seen, key ∈ progress.seen
  value : f progress.value = progress'.value

theorem member (h : part.PartOf whole f) {depth : Nat} {progress next : Progress α}
    {progress' : Progress β} (hfollows : Follows f progress progress') {key : String}
    {cs rest : List Char} (hread : whole.member depth progress key cs = .ok (next, rest)) :
    ∃ next', part.member depth progress' key cs = .ok (next', rest) ∧ Follows f next next' := by
  obtain ⟨cs', hcolon, hpasses⟩ := passes_of_member h.agrees hread
  unfold Record.member at hread ⊢
  rw [hcolon] at hread ⊢
  cases hpart : part.fields.find? (·.key == key) with
  | none =>
    refine ⟨progress', ?_, ?_⟩
    . simp only [bind, Except.bind]
      rw [Skip.value_eq_ok_iff.mpr hpasses]
    . split at hread
      . simp only [bind_eq_ok_iff, Except.ok.injEq, Prod.mk.injEq] at hread
        obtain ⟨_, _, _, _, rfl, _⟩ := hread
        exact hfollows
      . next field hwhole =>
        split at hread
        . contradiction
        . simp only [bind_eq_ok_iff, Except.ok.injEq, Prod.mk.injEq] at hread
          obtain ⟨_, _, ⟨set, _⟩, hset, rfl, _⟩ := hread
          constructor
          . intro k hk
            exact List.mem_cons_of_mem _ (hfollows.seen k hk)
          . rw [h.others hpart hwhole _ _ _ _ hset]
            exact hfollows.value
  | some field =>
    obtain ⟨field', hwhole, hshared⟩ := h.shared hpart
    rw [hwhole] at hread
    dsimp only at hread ⊢
    split at hread
    . contradiction
    . next hnew =>
      simp only [bind_eq_ok_iff, Except.ok.injEq, Prod.mk.injEq] at hread
      obtain ⟨_, rfl, ⟨set', _⟩, hset', rfl, rfl⟩ := hread
      obtain ⟨set, hset, heq⟩ := hshared hset'
      have hnew' : ¬progress'.seen.contains key = true := by
        rw [List.contains_iff_mem] at hnew ⊢
        exact fun hk => hnew (hfollows.seen key hk)
      refine ⟨⟨key :: progress'.seen, set progress'.value⟩, ?_, ?_, ?_⟩
      . rw [if_neg hnew']
        simp only [bind, Except.bind]
        rw [hset]
      . intro k hk
        rcases List.mem_cons.mp hk with rfl | hk
        . exact List.mem_cons_self
        . exact List.mem_cons_of_mem _ (hfollows.seen k hk)
      . rw [heq, hfollows.value]

theorem ofObject (h : part.PartOf whole f) {depth : Nat} {cs rest : List Char} {a : α}
    (hread : whole.ofObject depth cs = .ok (a, rest)) :
    part.ofObject depth cs = .ok (f a, rest) := by
  unfold Record.ofObject at hread ⊢
  rw [bind_eq_ok_iff] at hread
  obtain ⟨⟨progress, rest'⟩, hprogress, hread⟩ := hread
  have hblank : Follows f ⟨[], whole.blank⟩ ⟨[], part.blank⟩ := ⟨by simp, h.blank⟩
  have hstep : ∀ progress progress' key cs next rest, Follows f progress progress' →
      whole.member depth progress key cs = .ok (next, rest) →
      ∃ next', part.member depth progress' key cs = .ok (next', rest) ∧ Follows f next next' := by
    intro progress progress' key cs next rest hfollows hmember
    exact h.member hfollows hmember
  unfold Reader.objectBody at hprogress ⊢
  obtain ⟨progress', hprogress', hfollows⟩ := Reader.members_simulate hstep hblank hprogress
  have hmissing : part.missing? progress'.seen = none := by
    unfold missing?
    rw [Option.map_eq_none_iff, List.find?_eq_none]
    intro field hfield
    simp [h.optional field hfield]
  dsimp only at hread
  split at hread
  . contradiction
  . rw [Except.ok.injEq, Prod.mk.injEq] at hread
    obtain ⟨rfl, rfl⟩ := hread
    rw [hprogress']
    simp only [bind, Except.bind]
    rw [hmissing, hfollows.value]

theorem read (h : part.PartOf whole f) {depth : Nat} {cs body rest : List Char} {a : α}
    (hobject : skipSpace cs = '\x7b' :: body) (hread : whole.read depth cs = .ok (a, rest)) :
    part.read depth cs = .ok (f a, rest) := by
  rw [read_of_brace hobject] at hread ⊢
  rw [Reader.inside_eq_ok_iff] at hread ⊢
  obtain ⟨inner, hdepth, hread⟩ := hread
  exact ⟨inner, hdepth, h.ofObject hread⟩

theorem alone (h : part.PartOf whole f) {depth : Nat} {text body : List Char} {a : α}
    (hobject : skipSpace text = '\x7b' :: body) (hread : whole.read.alone depth text = .ok a) :
    part.read.alone depth text = .ok (f a) := by
  unfold Reader.alone at hread ⊢
  cases hwhole : whole.read depth text with
  | error e =>
    rw [hwhole] at hread
    contradiction
  | ok result =>
    rw [hwhole] at hread
    obtain rfl := Except.ok.inj hread
    rw [h.read hobject hwhole]
    rfl

theorem document (h : part.PartOf whole f) {document : String} {body : List Char} {a : α}
    (hobject : skipSpace document.toList = '\x7b' :: body)
    (hread : Reader.document whole.read document = .ok a) :
    Reader.document part.read document = .ok (f a) := by
  unfold Reader.document at hread ⊢
  rw [bind_eq_ok_iff] at hread
  obtain ⟨⟨a', rest⟩, ha', hread⟩ := hread
  rw [h.read hobject ha']
  dsimp only at hread
  split at hread
  . next hend =>
    rw [Except.ok.injEq] at hread
    simp [bind, Except.bind, hend, hread]
  . contradiction

end PartOf

end Record

end SchemaMigration.Json
