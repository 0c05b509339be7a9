/-!
This module contains the arguments of the command line tool. Options stand before the subcommand
they do not belong to, options of a subcommand after it. A long option has its value in the next
argument or after an equals sign; a short one has it in the next argument, right behind its letter,
or after an equals sign. Several short flags can share a dash.

Arguments are read from left to right and the first fault ends the reading, so a version that is
asked for before it is still given. What is missing on the command line may come from the
environment.
-/

namespace SchemaMigration.Command

inductive Subcommand where
  | generate (name up : String) (down : Option String)
  | plan (up : String)
  | check (up : String) (down : Option String)
  deriving DecidableEq

structure Invocation where
  models : Option String
  allowAmbiguousDefaults : Bool
  verbose : Bool
  subcommand : Subcommand
  deriving DecidableEq

inductive Request where
  | run (invocation : Invocation)
  | version
  deriving DecidableEq

namespace Arguments

inductive Kind where
  | flag
  | path
  | text
  | version
  deriving DecidableEq

structure Opt where
  name : String
  letter : Option Char
  kind : Kind
  deriving DecidableEq

def mainOptions : List Opt := [
  ⟨"models", some 'm', .path⟩,
  ⟨"allow-ambiguous-defaults", none, .flag⟩,
  ⟨"verbose", some 'v', .flag⟩,
  ⟨"version", some 'V', .version⟩]

def subcommandOptions : String → Option (List Opt)
  | "generate" =>
    some [⟨"name", some 'n', .text⟩, ⟨"up", none, .path⟩, ⟨"down", none, .path⟩]
  | "plan" => some [⟨"up", none, .path⟩]
  | "check" => some [⟨"up", none, .path⟩, ⟨"down", none, .path⟩]
  | _ => none

inductive Stop where
  | usage
  | version
  deriving DecidableEq

abbrev Given := List (String × String)

def give (given : Given) (o : Opt) (value : String) : Except Stop Given :=
  if (given.lookup o.name).isSome then
    .error .usage
  else if o.kind = .path ∧ value = "" then
    .error .usage
  else
    .ok ((o.name, value) :: given)

inductive Reading where
  | done (given : Given)
  | awaits (given : Given) (option : Opt)

def readLong (options : List Opt) (given : Given) (text : String) : Except Stop Reading :=
  let name := text.toList.takeWhile (· ≠ '=')
  let value := (text.toList.dropWhile (· ≠ '=')).drop 1
  let hasValue := text.toList.contains '='
  match options.find? (·.name == String.ofList name) with
  | none => .error .usage
  | some o =>
    match o.kind, hasValue with
    | .flag, true | .version, true => .error .usage
    | .flag, false => do .ok (.done (← give given o ""))
    | .version, false => .error .version
    | _, true => do .ok (.done (← give given o (String.ofList value)))
    | _, false => .ok (.awaits given o)

def readShort (options : List Opt) (given : Given) : List Char → Except Stop Reading
  | [] => .ok (.done given)
  | letter :: letters =>
    match options.find? (·.letter == some letter) with
    | none => .error .usage
    | some o =>
      match o.kind, letters with
      | .flag, _ => do readShort options (← give given o "") letters
      | .version, _ => .error .version
      | _, [] => .ok (.awaits given o)
      | _, '=' :: value => do .ok (.done (← give given o (String.ofList value)))
      | _, value => do .ok (.done (← give given o (String.ofList value)))

/--
Read options up to the first argument that is none. Two dashes alone end the options, after which
nothing else is accepted. The option whose value is awaited takes the next argument, unless that
looks like an option itself.
-/
def readOptions (options : List Opt) :
    Given → Option Opt → List String → Except Stop (Given × List String)
  | given, none, [] => .ok (given, [])
  | _, some _, [] => .error .usage
  | given, awaited, arg :: args =>
    match arg.toList, awaited with
    | ['-', '-'], none => if args.isEmpty then .ok (given, []) else .error .usage
    | ['-'], none => .ok (given, arg :: args)
    | ['-'], some o => do readOptions options (← give given o arg) none args
    | '-' :: _, some _ => .error .usage
    | '-' :: '-' :: text, none => do
      match ← readLong options given (String.ofList text) with
      | .done given => readOptions options given none args
      | .awaits given o => readOptions options given (some o) args
    | '-' :: letters, none => do
      match ← readShort options given letters with
      | .done given => readOptions options given none args
      | .awaits given o => readOptions options given (some o) args
    | _, some o => do readOptions options (← give given o arg) none args
    | _, none => .ok (given, arg :: args)

def required (given : Given) (name : String) : Except Stop String :=
  match given.lookup name with
  | some value => .ok value
  | none => .error .usage

def subcommand (name : String) (given : Given) : Except Stop Subcommand := do
  match name with
  | "generate" =>
    .ok (.generate (← required given "name") (← required given "up") (given.lookup "down"))
  | "plan" => .ok (.plan (← required given "up"))
  | "check" => .ok (.check (← required given "up") (given.lookup "down"))
  | _ => .error .usage

def readSubcommand (args : List String) : Except Stop Subcommand := do
  match args with
  | [] => .error .usage
  | name :: args =>
    match subcommandOptions name with
    | none => .error .usage
    | some options =>
      let (given, rest) ← readOptions options [] none args
      if rest.isEmpty then subcommand name given else .error .usage

def models (env : String → Option String) (given : Given) : Except Stop (Option String) :=
  match given.lookup "models", env "BLUEPRINT_MODELS" with
  | some path, _ => .ok (some path)
  | none, some "" => .error .usage
  | none, path => .ok path

def allowAmbiguousDefaults (env : String → Option String) (given : Given) : Except Stop Bool :=
  match given.lookup "allow-ambiguous-defaults", env "BLUEPRINT_ALLOW_AMBIGUOUS_DEFAULTS" with
  | some _, _ => .ok true
  | none, none => .ok false
  | none, some "true" => .ok true
  | none, some "false" => .ok false
  | none, some _ => .error .usage

def readInvocation (env : String → Option String) (args : List String) :
    Except Stop Invocation := do
  let (given, rest) ← readOptions mainOptions [] none args
  let subcommand ← readSubcommand rest
  let models ← models env given
  let allowAmbiguousDefaults ← allowAmbiguousDefaults env given
  .ok {
    models, allowAmbiguousDefaults, subcommand
    verbose := (given.lookup "verbose").isSome }

def request? (env : String → Option String) (args : List String) : Option Request :=
  match readInvocation env args with
  | .ok invocation => some (.run invocation)
  | .error .version => some .version
  | .error .usage => none

end Arguments

end SchemaMigration.Command
