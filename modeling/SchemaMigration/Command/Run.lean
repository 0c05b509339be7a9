import SchemaMigration.ChangeSet.Document
import SchemaMigration.Command.Arguments
import SchemaMigration.Command.CompileLog
import SchemaMigration.Command.Directory
import SchemaMigration.Registry.Document
import SchemaMigration.Script.SchemaBuilder

/-!
This module contains what the command line tool does. It reads the registry of models first and then
the change sets, and it writes a script or a plan only after nothing can fail any more.
-/

namespace SchemaMigration.Command

open Json

structure Failure where
  context : Option String
  error : Error
  deriving DecidableEq

namespace Failure

def chain (f : Failure) : List String :=
  f.context.toList ++ f.error.message :: f.error.cause?.toList

def indentRest (indentation message : String) : String :=
  ("\n" ++ indentation).intercalate (message.splitOn "\n")

def causeText (numbered : Bool) (number : Nat) (message : String) : String :=
  if numbered then
    "    " ++ toString number ++ ": " ++ indentRest "       " message
  else
    "    " ++ indentRest "    " message

def text (f : Failure) : String :=
  match f.chain with
  | [] => ""
  | [message] => "Error: " ++ message ++ "\n"
  | message :: causes =>
    "Error: " ++ message ++ "\n\nCaused by:\n"
      ++ String.join (causes.mapIdx fun i cause =>
        causeText (1 < causes.length) i cause ++ "\n")

end Failure

structure Work (α : Type) where
  events : List Event
  result : Except Failure α

namespace Work

def andThen (w : Work α) (next : α → Work β) : Work β :=
  match w.result with
  | .error f => ⟨w.events, .error f⟩
  | .ok a => ⟨w.events ++ (next a).events, (next a).result⟩

instance : Monad Work where
  pure a := ⟨[], .ok a⟩
  bind := andThen

def log (events : List Event) : Work Unit := ⟨events, .ok ()⟩

def ofExcept (context : Option String) (result : Except Error α) : Work α :=
  ⟨[], result.mapError fun error => ⟨context, error⟩⟩

end Work

def load (files : Files) (read : Reader α) (unreadable : Json.Error → Error) (path : String) :
    Except Error α := do
  let text ← (files.text path).mapError .file
  (Reader.document read text).mapError unreadable

def readChangeSet (files : Files) (path : String) : Work ChangeSet :=
  .ofExcept (some ("reading change set " ++ path))
    (load files ChangeSet.record.read (fun e => .malformed (.unreadable e)) path)

def readChangeSet? (files : Files) (path : Option String) : Work ChangeSet :=
  match path with
  | some path => readChangeSet files path
  | none => pure .empty

def readRegistry (files : Files) (path : Option String) : Work Registry :=
  match path with
  | none => pure .empty
  | some path => do
    let registry ← .ofExcept (some ("reading entity registry " ++ path))
      (load files Registry.reader .unreadable path)
    Work.log [⟨.debug, "loaded entity registry", [.count "entities" registry.size]⟩]
    return registry

def compile (registry : Registry) (options : Options) (cs : ChangeSet) : Work Plan := do
  Work.log (compileEvents registry options cs)
  .ofExcept none (cs.compile registry options)

def assemble (registry : Registry) (options : Options) (name : String) (up down : ChangeSet) :
    Work Script := do
  Work.log (assembleEvents registry options name up down)
  .ofExcept none (Script.assemble registry options name up down)

def info (message : String) : Event := ⟨.info, message, []⟩

def planEvents (direction : String) (plan : Plan) : List Event :=
  if plan.isEmpty then
    [info (direction ++ ": nothing to do")]
  else
    plan.passes.flatMap fun pass => pass.groups.filterMap fun group =>
      group.table?.map fun table =>
        info (direction ++ ": " ++ pass.kind.name ++ " '" ++ table ++ "' ("
          ++ toString group.statementCount ++ " statements)")

def totalEvent (up down : Plan) : Event :=
  info ("OK: " ++ toString up.statementCount ++ " statements up, "
    ++ toString down.statementCount ++ " statements down")

def execute (files : Files) (registry : Registry) (options : Options) : Subcommand → Work String
  | .generate name up down => do
    let up ← readChangeSet files up
    let down ← readChangeSet? files down
    let script ← assemble registry options name up down
    Work.log [info ("Generated migration " ++ name)]
    return script.render .schemaBuilder
  | .plan up => do
    let up ← readChangeSet files up
    let plan ← compile registry options up
    return plan.toJson.pretty ++ "\n"
  | .check up down => do
    let up ← readChangeSet files up
    let up ← compile registry options up
    let down ← readChangeSet? files down
    let down ← compile registry options down
    Work.log (planEvents "up" up ++ planEvents "down" down ++ [totalEvent up down])
    return ""

def work (files : Files) (i : Invocation) : Work String := do
  let registry ← readRegistry files i.models
  execute files registry ⟨i.allowAmbiguousDefaults⟩ i.subcommand

structure Outcome where
  status : Nat
  stdout : String
  stderr : String
  deriving DecidableEq

def Work.outcome (verbose : Bool) (w : Work String) : Outcome :=
  let log := String.join ((w.events.filter (Event.isShown verbose)).map fun e => e.line ++ "\n")
  match w.result with
  | .ok output => ⟨0, output, log⟩
  | .error failure => ⟨1, "", log ++ failure.text⟩

def version : String := "oxide-blueprint 0.1.0"

def usage : String :=
  "Usage: oxide-blueprint [OPTIONS] <generate|plan|check>\n"

def run (files : Files) (env : String → Option String) (args : List String) : Outcome :=
  match Arguments.request? env args with
  | none => ⟨2, "", usage⟩
  | some .version => ⟨0, version ++ "\n", ""⟩
  | some (.run invocation) => (work files invocation).outcome invocation.verbose

end SchemaMigration.Command
