import SchemaMigration.Text.SingleQuoted

/-!
This module contains the reading of literals between single quotes. A literal ends where it ends,
whatever the name in it and whatever comes behind it.
-/

namespace SchemaMigration.Text.SingleQuoted

/--
Read a literal behind its opening quote. A backslash stands for itself unless a backslash or a quote
follows it, and the first quote without a backslash is the end.
-/
def scan : List Char → Option (List Char × List Char)
  | [] => none
  | '\'' :: rest => some ([], rest)
  | '\\' :: c :: rest =>
    if c = '\\' ∨ c = '\'' then
      (scan rest).map fun (cs, rest) => (c :: cs, rest)
    else
      (scan (c :: rest)).map fun (cs, rest) => ('\\' :: cs, rest)
  | c :: rest => (scan rest).map fun (cs, rest) => (c :: cs, rest)

theorem scan_encodeChar (c : Char) (rest : List Char) :
    scan (encodeChar c ++ rest) = (scan rest).map fun (cs, rest) => (c :: cs, rest) := by
  unfold encodeChar
  split
  . next hescaped =>
    rw [List.cons_append, List.singleton_append]
    rw [scan, if_pos hescaped]
  . next hplain =>
    rw [not_or] at hplain
    rw [List.singleton_append]
    rw [scan]
    . intro h
      exact hplain.2 h
    . intro c' rest' h
      simp [hplain.1] at h

theorem scan_encodeChars (cs rest : List Char) :
    scan (encodeChars cs ++ '\'' :: rest) = some (cs, rest) := by
  induction cs with
  | nil => rfl
  | cons c cs ih =>
    rw [encodeChars_cons, List.append_assoc]
    rw [scan_encodeChar, ih]
    rfl

theorem encode_append (s : String) (rest : List Char) :
    (encode s).toList ++ rest = '\'' :: (encodeChars s.toList ++ '\'' :: rest) := by
  simp

theorem encode_cancel {s s' : String} {rest rest' : List Char}
    (h : (encode s).toList ++ rest = (encode s').toList ++ rest') : s = s' ∧ rest = rest' := by
  rw [encode_append, encode_append, List.cons.injEq] at h
  have hscan := scan_encodeChars s.toList rest
  rw [h.2, scan_encodeChars] at hscan
  rw [Option.some.injEq, Prod.mk.injEq, String.toList_inj] at hscan
  exact ⟨hscan.1.symm, hscan.2.symm⟩

def read : List Char → Option (String × List Char)
  | '\'' :: rest => (scan rest).map fun (cs, rest) => (String.ofList cs, rest)
  | _ => none

theorem read_encode (s : String) (rest : List Char) :
    read ((encode s).toList ++ rest) = some (s, rest) := by
  rw [encode_append, read, scan_encodeChars]
  simp

theorem length_map {α β : Type} {scanned : Option (α × List Char)} {f : α → β} {n : Nat}
    (hscanned : ∀ {a rest}, scanned = some (a, rest) → rest.length < n) {b : β} {rest : List Char}
    (h : (scanned.map fun (a, rest) => (f a, rest)) = some (b, rest)) : rest.length < n := by
  obtain ⟨_, heq, hrest⟩ := Option.map_eq_some_iff.mp h
  cases hrest
  exact hscanned heq

theorem length_scan {cs name rest : List Char} (h : scan cs = some (name, rest)) :
    rest.length < cs.length := by
  fun_induction scan cs generalizing name rest with
  | case1 => contradiction
  | case2 =>
    cases h
    exact Nat.lt_succ_self _
  | case3 c cs _ ih => exact Nat.lt_succ_of_lt (Nat.lt_succ_of_lt (length_map ih h))
  | case4 c cs _ ih => exact Nat.lt_succ_of_lt (length_map ih h)
  | case5 c cs _ _ ih => exact Nat.lt_succ_of_lt (length_map ih h)

theorem length_read {cs rest : List Char} {name : String} (h : read cs = some (name, rest)) :
    rest.length < cs.length := by
  unfold read at h
  split at h
  . exact Nat.lt_succ_of_lt (length_map length_scan h)
  . contradiction

end SchemaMigration.Text.SingleQuoted
