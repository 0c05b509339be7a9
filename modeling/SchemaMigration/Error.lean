import SchemaMigration.ChangeSet.Basic
import SchemaMigration.Json.Error

/-!
This module contains the reasons why a migration cannot be compiled, and their wording. Names stand
in the messages as they are.
-/

namespace SchemaMigration

inductive Malformation where
  | unreadable (error : Json.Error)
  | blankConnection (table : String) (bucket : Bucket)
  | columnsOfCreatedTable (table : String)
  | columnsOfDeletedTable (table : String)
  | blankType (table column : String)
  | incompleteRelation (table column : String)
  | scriptName (name : String)
  deriving DecidableEq

inductive FileFault where
  | missing
  | directory
  | belowFile
  | nameTooLong
  | notText
  deriving DecidableEq

inductive Error where
  | malformed (what : Malformation)
  | conflictingTable (table : String) (first second : Bucket)
  | ambiguousDefault (table column : String)
  | unknownModel (model : String)
  | file (fault : FileFault)
  | unreadable (error : Json.Error)
  deriving DecidableEq

def Malformation.message : Malformation → String
  | .unreadable error => error.message
  | .blankConnection table bucket =>
    "table '" ++ table ++ "' in '" ++ bucket.name ++ "' has an empty connection"
  | .columnsOfCreatedTable table =>
    "created table '" ++ table ++ "' may only list created columns"
  | .columnsOfDeletedTable table => "deleted table '" ++ table ++ "' may not list columns"
  | .blankType table column =>
    "column '" ++ column ++ "' on table '" ++ table ++ "' has an empty type"
  | .incompleteRelation table column =>
    "column '" ++ column ++ "' on table '" ++ table ++ "' has an incomplete belongsTo"
  | .scriptName name => "script name '" ++ name ++ "' is not a valid identifier"

def FileFault.message : FileFault → String
  | .missing => "No such file or directory (os error 2)"
  | .directory => "Is a directory (os error 21)"
  | .belowFile => "Not a directory (os error 20)"
  | .nameTooLong => "File name too long (os error 36)"
  | .notText => "stream did not contain valid UTF-8"

namespace Error

def message : Error → String
  | .malformed what => "Malformed change set: " ++ what.message
  | .conflictingTable table first second =>
    "Table '" ++ table ++ "' appears in both the '" ++ first.name ++ "' and '" ++ second.name
      ++ "' buckets"
  | .ambiguousDefault table column =>
    "Column '" ++ column ++ "' on table '" ++ table ++ "' sets both 'default' and 'rawDefault'"
  | .unknownModel model => "Cannot resolve related model '" ++ model ++ "'"
  | .file fault => "IO error: " ++ fault.message
  | .unreadable error => "Serialization error: " ++ error.message

def cause? : Error → Option String
  | .file fault => some fault.message
  | .unreadable error => some error.message
  | _ => none

end Error

end SchemaMigration
