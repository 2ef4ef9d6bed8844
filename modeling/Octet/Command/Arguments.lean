import Octet.Command.Settings

/-!
# Arguments

What the words behind the program's name ask for. Words are read from left to right and the first
that settles the matter does so, be it a mistake or a wish for help. The name of a subcommand is
taken as such wherever a path could stand at the top level, and a double dash ends that and all
options.
-/
namespace Octet

structure RunOptions where
  minimal : Bool
  trace : Bool
  /-- Replaces the limit of the settings. -/
  maxSteps : Option Nat
  deriving DecidableEq, Repr

def RunOptions.default : RunOptions := ⟨false, false, none⟩

inductive Command where
  /-- Tell what the program is. -/
  | introduce
  | run (path : String) (options : RunOptions)
  | compile (path : String) (destination : Option String)
  | check (path : String)
  | labels (path : String)
  | watch (path : String)
  deriving DecidableEq, Repr

inductive Request where
  | command (command : Command)
  | help
  | version
  deriving DecidableEq, Repr

/-- Why arguments cannot be understood. -/
inductive Misuse where
  | unexpected (argument : String)
  | missing (what : String)
  | invalid (option : String) (value : String)
  | repeated (option : String)
  deriving DecidableEq, Repr

def Misuse.message : Misuse → String
  | .unexpected argument => s!"unexpected argument '{argument}' found"
  | .missing what => s!"a value for {what} is required"
  | .invalid option value => s!"invalid value '{value}' for {option}"
  | .repeated option => s!"{option} cannot be used multiple times"

inductive Subcommand where
  | run | compile | check | labels | watch
  deriving DecidableEq, Repr

namespace Subcommand

def ofName? : String → Option Subcommand
  | "run" => some .run
  | "compile" => some .compile
  | "check" => some .check
  | "labels" => some .labels
  | "watch" => some .watch
  | _ => none

/-- How many paths may follow. -/
def maxPaths : Subcommand → Nat
  | .compile => 2
  | _ => 1

end Subcommand

namespace Arguments

/-- Options start with a dash. The dash alone is a path. -/
def isOption (argument : String) : Bool :=
  argument.toList.head? == some '-' && argument != "-"

/-- What has been read behind a subcommand. -/
structure Gathered where
  paths : List String
  options : RunOptions

def Gathered.empty : Gathered := ⟨[], .default⟩

/-- Paths are not empty, and there may not be too many of them. -/
def Gathered.addPath (got : Gathered) (subcommand : Subcommand) (path : String) :
    Except Misuse Gathered :=
  if subcommand.maxPaths ≤ got.paths.length then .error (.unexpected path)
  else if path.isEmpty then .error (.missing "path")
  else .ok { got with paths := got.paths ++ [path] }

def Gathered.setMinimal (got : Gathered) : Except Misuse Gathered :=
  if got.options.minimal then .error (.repeated "--minimal")
  else .ok { got with options := { got.options with minimal := true } }

def Gathered.setTrace (got : Gathered) : Except Misuse Gathered :=
  if got.options.trace then .error (.repeated "--trace")
  else .ok { got with options := { got.options with trace := true } }

def Gathered.setMaxSteps (got : Gathered) (value : String) : Except Misuse Gathered :=
  if got.options.maxSteps.isSome then .error (.repeated "--max-steps")
  else
    match Settings.stepCount? value.toList with
    | none => .error (.invalid "--max-steps" value)
    | some count => .ok { got with options := { got.options with maxSteps := some count } }

/-- The request that a subcommand makes of what has been read. -/
def Gathered.finish (got : Gathered) (subcommand : Subcommand) : Except Misuse Request :=
  match got.paths with
  | [] => .error (.missing "path")
  | path :: rest =>
    .ok <| .command <|
      match subcommand with
      | .run => .run path got.options
      | .compile => .compile path rest.head?
      | .check => .check path
      | .labels => .labels path
      | .watch => .watch path

/-- What reading one option leads to: more to read, or help. -/
inductive Progress where
  | more (got : Gathered)
  | help

/-- Short options may share a dash. -/
def readShort (subcommand : Subcommand) (argument : String) :
    Gathered → List Char → Except Misuse Progress
  | got, [] => .ok (.more got)
  | _, 'h' :: _ => .ok .help
  | got, c :: cs => do
    if subcommand = .run ∧ c = 'm' then readShort subcommand argument (← got.setMinimal) cs
    else if subcommand = .run ∧ c = 't' then readShort subcommand argument (← got.setTrace) cs
    else .error (.unexpected argument)

/-- Read one option that needs no further argument. -/
def readOption (subcommand : Subcommand) (got : Gathered) (argument : String) :
    Except Misuse Progress :=
  match argument.toList with
  | '-' :: '-' :: name =>
    if name = "help".toList then .ok .help
    else if subcommand ≠ .run then .error (.unexpected argument)
    else if name = "minimal".toList then got.setMinimal.map .more
    else if name = "trace".toList then got.setTrace.map .more
    else if "max-steps=".toList.isPrefixOf name then
      (got.setMaxSteps (String.ofList (name.drop "max-steps=".length))).map .more
    else .error (.unexpected argument)
  | _ => readShort subcommand argument got argument.toList.tail

/-- Read what follows a subcommand. -/
def readRest (subcommand : Subcommand) : Gathered → List String → Except Misuse Request
  | got, [] => got.finish subcommand
  | got, argument :: rest =>
    if argument = "--" then do
      (← rest.foldlM (·.addPath subcommand) got).finish subcommand
    else if !isOption argument then do readRest subcommand (← got.addPath subcommand argument) rest
    else if subcommand = .run ∧ argument = "--max-steps" then
      match rest with
      | [] => .error (.missing "--max-steps")
      | value :: rest =>
        if isOption value then .error (.missing "--max-steps")
        else do readRest subcommand (← got.setMaxSteps value) rest
    else do
      match ← readOption subcommand got argument with
      | .help => .ok .help
      | .more got => readRest subcommand got rest

/-- Help can be asked for about a subcommand. -/
def readHelp : List String → Except Misuse Request
  | [] => .ok .help
  | name :: rest =>
    if (Subcommand.ofName? name).isNone && name != "help" then .error (.unexpected name)
    else
      match rest with
      | [] => .ok .help
      | extra :: _ => .error (.unexpected extra)

/-- A path at the top level. -/
def takePath (path? : Option String) (path : String) : Except Misuse (Option String) :=
  if path?.isSome then .error (.unexpected path)
  else if path.isEmpty then .error (.missing "path")
  else .ok (some path)

/-- A path without a subcommand is run. -/
def finishTop : Option String → Request
  | none => .command .introduce
  | some path => .command (.run path .default)

/-- Read the top level, where one path may stand. A subcommand makes that path pointless. -/
def readTop : Option String → List String → Except Misuse Request
  | path?, [] => .ok (finishTop path?)
  | path?, argument :: rest =>
    if argument = "--" then do return finishTop (← rest.foldlM takePath path?)
    else if isOption argument then
      if argument = "--help" then .ok .help
      else if argument = "--version" then .ok .version
      else
        match argument.toList with
        | '-' :: 'h' :: _ => .ok .help
        | '-' :: 'V' :: _ => .ok .version
        | _ => .error (.unexpected argument)
    else if argument = "help" then readHelp rest
    else
      match Subcommand.ofName? argument with
      | some subcommand => readRest subcommand .empty rest
      | none => do readTop (← takePath path? argument) rest

/-- What the arguments ask for, as the library `clap` reads a command line that is declared with
these subcommands and options. -/
def read (arguments : List String) : Except Misuse Request := readTop none arguments

end Arguments

end Octet
