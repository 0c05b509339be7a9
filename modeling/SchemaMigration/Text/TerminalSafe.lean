/-!
This module contains the form in which the log shows a message. A terminal takes some characters for
commands, to ring, to go back or to change a colour, so they are written by their numbers. Everything
else stands as it is, line ends and tabs included.
-/

namespace SchemaMigration.Text.TerminalSafe

def asciiCommands : List Char := ['\x07', '\x08', '\x0c', '\x1b', '\x7f']

def isWideCommand (c : Char) : Bool := 0x80 ≤ c.toNat && c.toNat ≤ 0x9f

def encodeChar (c : Char) : List Char :=
  if c ∈ asciiCommands then
    ['\\', 'x', Nat.digitChar (c.toNat / 16), Nat.digitChar (c.toNat % 16)]
  else if isWideCommand c then
    ['\\', 'u', '\x7b'] ++ Nat.toDigits 16 c.toNat ++ ['\x7d']
  else
    [c]

def encode (s : String) : String :=
  String.ofList (s.toList.flatMap encodeChar)

end SchemaMigration.Text.TerminalSafe
