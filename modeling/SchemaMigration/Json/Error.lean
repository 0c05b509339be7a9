import SchemaMigration.Json.Printer
import SchemaMigration.Text.DoubleQuoted

/-!
This module contains the reasons why a document cannot be read, and their wording.
-/

namespace SchemaMigration.Json

inductive Unfinished where
  | value
  | list
  | object
  | string
  deriving DecidableEq

inductive Found where
  | null
  | bool (value : Bool)
  | number (value : Number)
  | string (value : String)
  | array
  | object
  | unitVariant
  deriving DecidableEq

inductive Error where
  | unfinished (what : Unfinished)
  | expectedValue
  | expectedIdent
  | expectedColon
  | expectedCommaOrBracket
  | expectedCommaOrBrace
  | keyMustBeString
  | trailingComma
  | trailingCharacters
  | invalidNumber
  | numberOutOfRange
  | controlCharacter
  | invalidEscape
  | loneSurrogate
  | unexpectedEndOfEscape
  | nestedTooDeeply
  | invalidType (found : Found) (expected : String)
  | invalidLength (length : Nat) (expected : String) (fieldCount : Nat)
  | missingField (key : String)
  | duplicateField (key : String)
  | duplicateKey (key : String)
  | unknownVariant (name : String) (known : List String)
  deriving DecidableEq

def Unfinished.name : Unfinished → String
  | .value => "a value"
  | .list => "a list"
  | .object => "an object"
  | .string => "a string"

def Found.description : Found → String
  | .null => "null"
  | .bool true => "boolean `true`"
  | .bool false => "boolean `false`"
  | .number n@(.integer _) => "integer `" ++ String.ofList n.text ++ "`"
  | .number n@(.float _) => "floating point `" ++ String.ofList n.text ++ "`"
  | .string s => "string " ++ Text.DoubleQuoted.encode s
  | .array => "sequence"
  | .object => "map"
  | .unitVariant => "unit variant"

def elementCount (n : Nat) : String :=
  if n = 1 then "1 element" else toString n ++ " elements"

def Error.message : Error → String
  | .unfinished what => "EOF while parsing " ++ what.name
  | .expectedValue => "expected value"
  | .expectedIdent => "expected ident"
  | .expectedColon => "expected `:`"
  | .expectedCommaOrBracket => "expected `,` or `]`"
  | .expectedCommaOrBrace => "expected `,` or `\x7d`"
  | .keyMustBeString => "key must be a string"
  | .trailingComma => "trailing comma"
  | .trailingCharacters => "trailing characters"
  | .invalidNumber => "invalid number"
  | .numberOutOfRange => "number out of range"
  | .controlCharacter =>
    "control character (\\u0000-\\u001F) found while parsing a string"
  | .invalidEscape => "invalid escape"
  | .loneSurrogate => "lone leading surrogate in hex escape"
  | .unexpectedEndOfEscape => "unexpected end of hex escape"
  | .nestedTooDeeply => "recursion limit exceeded"
  | .invalidType found expected =>
    "invalid type: " ++ found.description ++ ", expected " ++ expected
  | .invalidLength length expected fieldCount =>
    "invalid length " ++ toString length ++ ", expected " ++ expected ++ " with "
      ++ elementCount fieldCount
  | .missingField key => "missing field `" ++ key ++ "`"
  | .duplicateField key => "duplicate field `" ++ key ++ "`"
  | .duplicateKey key => "duplicate key '" ++ key ++ "'"
  | .unknownVariant name known =>
    "unknown variant `" ++ name ++ "`, expected one of "
      ++ ", ".intercalate (known.map fun k => "`" ++ k ++ "`")

end SchemaMigration.Json
