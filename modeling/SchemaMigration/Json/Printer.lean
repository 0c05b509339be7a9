import SchemaMigration.Decimal.Layout
import SchemaMigration.Json.Basic
import SchemaMigration.Json.Quoted

/-!
This module contains the printing of JSON values. Compact and pretty text differ only in the white
space between the tokens, so there is one printer for both, which is told what stands between them.
-/

namespace SchemaMigration

def Number.text : Number → List Char
  | .integer (.ofNat n) => Nat.toDigits 10 n
  | .integer (.negSucc n) => '-' :: Nat.toDigits 10 (n + 1)
  | .float x => x.text

namespace Json

structure Style where
  lineStart : Nat → List Char
  afterColon : List Char

def Style.compact : Style := ⟨fun _ => [], []⟩

def Style.pretty : Style := ⟨fun depth => '\n' :: List.replicate (2 * depth) ' ', [' ']⟩

def bracketed (style : Style) (depth : Nat) (opening closing : Char) :
    List (List Char) → List Char
  | [] => [opening, closing]
  | items =>
    opening :: style.lineStart (depth + 1) ++ (',' :: style.lineStart (depth + 1)).intercalate items
      ++ style.lineStart depth ++ [closing]

mutual

def write (style : Style) (depth : Nat) : Json → List Char
  | .null => ['n', 'u', 'l', 'l']
  | .bool true => ['t', 'r', 'u', 'e']
  | .bool false => ['f', 'a', 'l', 's', 'e']
  | .number n => n.text
  | .string s => Quoted.encode s
  | .array items => bracketed style depth '[' ']' (writeItems style (depth + 1) items)
  | .object members => bracketed style depth '\x7b' '\x7d' (writeMembers style (depth + 1) members)

def writeItems (style : Style) (depth : Nat) : List Json → List (List Char)
  | [] => []
  | item :: items => write style depth item :: writeItems style depth items

def writeMembers (style : Style) (depth : Nat) : List (String × Json) → List (List Char)
  | [] => []
  | (key, value) :: members =>
    (Quoted.encode key ++ ':' :: style.afterColon ++ write style depth value)
      :: writeMembers style depth members

end

def compact (j : Json) : String := String.ofList (write .compact 0 j)

def pretty (j : Json) : String := String.ofList (write .pretty 0 j)

theorem writeItems_eq_map (style : Style) (depth : Nat) (items : List Json) :
    writeItems style depth items = items.map (write style depth) := by
  induction items with
  | nil => rfl
  | cons item items ih => simp [writeItems, ih]

theorem writeMembers_eq_map (style : Style) (depth : Nat) (members : List (String × Json)) :
    writeMembers style depth members = members.map fun (key, value) =>
      Quoted.encode key ++ ':' :: style.afterColon ++ write style depth value := by
  induction members with
  | nil => rfl
  | cons m members ih => simp [writeMembers, ih]

end Json

end SchemaMigration
