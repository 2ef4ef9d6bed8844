import Octet.Text.Whitespace

/-!
# Settings

What the environment decides: whether runs are traced, how many steps a run may take, and whether
status words are coloured. The settings of a process are read once, before they are first used.
-/
namespace Octet

/-- The values of environment variables by their names. -/
abbrev Environment := String → Option String

structure Settings where
  trace : Bool
  maxSteps : Nat
  colored : Bool
  deriving DecidableEq, Repr

namespace Settings

def defaultMaxSteps : Nat := 10000

/-- A step count is written in decimal digits, with an optional plus in front, and fits into 64
bits. -/
def stepCount? (cs : List Char) : Option Nat :=
  let digits := match cs with
    | '+' :: rest => rest
    | _ => cs
  if digits.isEmpty || !digits.all Char.isDigit then none
  else
    let count := digits.foldl (fun n c => n * 10 + (c.toNat - '0'.toNat)) 0
    if count < UInt64.size then some count else none

/-- A step count that cannot be read is as good as none. -/
def ofEnvironment (environment : Environment) : Settings where
  trace := environment "BYTESIM_TRACE" == some "1"
  maxSteps :=
    ((environment "BYTESIM_MAX_STEPS").bind fun text =>
      stepCount? (Text.trim text.toList)).getD defaultMaxSteps
  colored := (environment "CLICOLOR_FORCE").any (· != "0")

end Settings

/-- The settings of a process, once they have been read. -/
abbrev SettingsSlot := Option Settings

inductive SettingsError where
  | unset
  | setTwice
  deriving DecidableEq, Repr

def SettingsError.message : SettingsError → String
  | .unset => "tried to access environment state before initialization"
  | .setTwice => "tried to initialize environment state multiple times"

namespace SettingsSlot

def set (slot : SettingsSlot) (environment : Environment) : Except SettingsError SettingsSlot :=
  match slot with
  | none => .ok (some (.ofEnvironment environment))
  | some _ => .error .setTwice

def get (slot : SettingsSlot) : Except SettingsError Settings :=
  match slot with
  | none => .error .unset
  | some settings => .ok settings

end SettingsSlot

end Octet
