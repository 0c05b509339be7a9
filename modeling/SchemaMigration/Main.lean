import SchemaMigration.Command.Run

/-!
This module contains the command line tool itself, which gets the arguments, the environment and the
files to `Command.run` and its outcome to the outside.
-/

namespace SchemaMigration.Command

def Request.paths : Request → List String
  | .version => []
  | .run i =>
    i.models.toList ++
      match i.subcommand with
      | .generate _ up down => up :: down.toList
      | .plan up => [up]
      | .check up down => up :: down.toList

def readFile (path : String) : IO (Except FileFault ByteArray) := do
  try
    return .ok (← IO.FS.readBinFile path)
  catch
    | .noFileOrDirectory .. => return .error .missing
    | .inappropriateType _ code _ =>
      return .error (if code = 21 then .directory else .belowFile)
    | .invalidArgument .. => return .error .nameTooLong
    | _ => return .error .missing

def readFiles (paths : List String) : IO Files := do
  let contents ← paths.mapM fun path => do return (path, ← readFile path)
  return fun path => (contents.lookup path).getD (.error .missing)

end SchemaMigration.Command

open SchemaMigration.Command in
def main (args : List String) : IO UInt32 := do
  let models ← IO.getEnv "BLUEPRINT_MODELS"
  let allow ← IO.getEnv "BLUEPRINT_ALLOW_AMBIGUOUS_DEFAULTS"
  let env (name : String) : Option String :=
    match name with
    | "BLUEPRINT_MODELS" => models
    | "BLUEPRINT_ALLOW_AMBIGUOUS_DEFAULTS" => allow
    | _ => none
  let files ← readFiles (((Arguments.request? env args).map Request.paths).getD [])
  let outcome := run files env args
  IO.print outcome.stdout
  IO.eprint outcome.stderr
  return outcome.status.toUInt32
