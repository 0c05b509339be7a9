import SchemaMigration.Text.Printable

/-!
This module contains the form in which a message shows a piece of text: between double quotes, with
a backslash before double quotes and backslashes, short escapes for the tab, the line ends and the
null character, and `\u` with the code point in braces for everything that has no glyph of its own.
Single quotes stand as they are.
-/

namespace SchemaMigration.Text.DoubleQuoted

def encodeChar (c : Char) : List Char :=
  match c with
  | '"' => ['\\', '"']
  | '\\' => ['\\', '\\']
  | '\n' => ['\\', 'n']
  | '\r' => ['\\', 'r']
  | '\t' => ['\\', 't']
  | '\x00' => ['\\', '0']
  | c =>
    if isPrintable c then
      [c]
    else
      ['\\', 'u', '\x7b'] ++ Nat.toDigits 16 c.toNat ++ ['\x7d']

def encode (s : String) : String :=
  String.ofList ('"' :: s.toList.flatMap encodeChar ++ ['"'])

end SchemaMigration.Text.DoubleQuoted
