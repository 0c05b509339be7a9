import SchemaMigration.Text.DoubleQuoted
import SchemaMigration.Text.TerminalSafe

/-!
This module contains the events that the command line tool reports while it works, and their lines
in the log.
-/

namespace SchemaMigration.Command

inductive Level where
  | debug
  | info
  | warn
  deriving DecidableEq

def Level.name : Level → String
  | .debug => "DEBUG"
  | .info => " INFO"
  | .warn => " WARN"

inductive Detail where
  | text (name value : String)
  | plain (name value : String)
  | count (name : String) (value : Nat)
  deriving DecidableEq

def Detail.line : Detail → String
  | .text name value => name ++ "=" ++ Text.DoubleQuoted.encode value
  | .plain name value => name ++ "=" ++ value
  | .count name value => name ++ "=" ++ toString value

structure Event where
  level : Level
  message : String
  details : List Detail := []
  deriving DecidableEq

namespace Event

def line (e : Event) : String :=
  e.level.name ++ " "
    ++ " ".intercalate (Text.TerminalSafe.encode e.message :: e.details.map Detail.line)

def isShown (verbose : Bool) (e : Event) : Bool := verbose || e.level != .debug

end Event

end SchemaMigration.Command
