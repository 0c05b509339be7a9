/-!
This module contains string literals between single quotes. A backslash and a single quote inside
the literal get a backslash before them, every other character stands for itself, so a name cannot
end the literal it is written in.
-/

namespace SchemaMigration.Text.SingleQuoted

def encodeChar (c : Char) : List Char :=
  if c = '\\' ∨ c = '\'' then ['\\', c] else [c]

def encodeChars (cs : List Char) : List Char :=
  cs.flatMap encodeChar

def encode (s : String) : String :=
  String.ofList ('\'' :: encodeChars s.toList ++ ['\''])

@[simp]
theorem encodeChars_cons (c : Char) (cs : List Char) :
    encodeChars (c :: cs) = encodeChar c ++ encodeChars cs := by
  simp [encodeChars]

@[simp]
theorem toList_encode (s : String) :
    (encode s).toList = '\'' :: encodeChars s.toList ++ ['\''] := by
  simp [encode]

end SchemaMigration.Text.SingleQuoted
