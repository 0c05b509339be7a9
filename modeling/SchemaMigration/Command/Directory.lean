import SchemaMigration.Error

/-!
This module contains the files that a command can read. A path leads to the bytes of a file, or to
the reason why there are none.
-/

namespace SchemaMigration.Command

abbrev Files := String → Except FileFault ByteArray

def Files.text (files : Files) (path : String) : Except FileFault String := do
  match String.fromUTF8? (← files path) with
  | some text => .ok text
  | none => .error .notText

/--
The files below a working directory, by the names on the way to them. A way that starts with a slash
starts at the root.
-/
structure Directory where
  files : List (List String × ByteArray)

namespace Directory

def route (path : String) : List String × List String :=
  match path.splitOn "/" with
  | "" :: names => (["/"], names)
  | names => ([], names)

def ofList (files : List (String × ByteArray)) : Directory :=
  ⟨files.map fun (path, bytes) => ((route path).1 ++ (route path).2, bytes)⟩

def file? (d : Directory) (place : List String) : Option ByteArray :=
  d.files.lookup place

def isDirectory (d : Directory) (place : List String) : Bool :=
  place == ["/"] || place.all (· == "..") ||
    d.files.any fun (way, _) => place.isPrefixOf way && place != way

def parent (place : List String) : List String :=
  if place = ["/"] then place
  else if place.all (· == "..") then ".." :: place
  else place.dropLast

def longestName : Nat := 255

def longestPath : Nat := 4095

def follow (d : Directory) (place : List String) : List String → Except FileFault (List String)
  | [] => .ok place
  | name :: names =>
    if d.isDirectory place then
      if name = "" ∨ name = "." then d.follow place names
      else if name = ".." then d.follow (parent place) names
      else if longestName < name.utf8ByteSize then .error .nameTooLong
      else d.follow (place ++ [name]) names
    else if (d.file? place).isSome then
      .error .belowFile
    else
      .error .missing

def read (d : Directory) : Files := fun path => do
  if longestPath < path.utf8ByteSize then
    throw .nameTooLong
  let (start, names) := route path
  let place ← d.follow start names
  match d.file? place with
  | some bytes => .ok bytes
  | none => if d.isDirectory place then .error .directory else .error .missing

end Directory

end SchemaMigration.Command
