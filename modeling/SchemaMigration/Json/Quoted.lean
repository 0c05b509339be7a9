/-!
This module contains the strings of JSON: how they are written between double quotes.
-/

namespace SchemaMigration.Json.Quoted

def hexDigit (n : Nat) : Char := Nat.digitChar n

def encodeChar (c : Char) : List Char :=
  match c with
  | '"' => ['\\', '"']
  | '\\' => ['\\', '\\']
  | '\x08' => ['\\', 'b']
  | '\x0c' => ['\\', 'f']
  | '\n' => ['\\', 'n']
  | '\r' => ['\\', 'r']
  | '\t' => ['\\', 't']
  | c =>
    if c.toNat < 0x20 then
      ['\\', 'u', '0', '0', hexDigit (c.toNat / 16), hexDigit (c.toNat % 16)]
    else
      [c]

def encodeChars (cs : List Char) : List Char :=
  cs.flatMap encodeChar

def encode (s : String) : List Char :=
  '"' :: encodeChars s.toList ++ ['"']

@[simp]
theorem encodeChars_nil : encodeChars [] = [] := rfl

@[simp]
theorem encodeChars_cons (c : Char) (cs : List Char) :
    encodeChars (c :: cs) = encodeChar c ++ encodeChars cs := by
  simp [encodeChars]

end SchemaMigration.Json.Quoted
