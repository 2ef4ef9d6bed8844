import Octet.Command.Perform

/-!
# The command line

Arguments, environment and files of the process, and its streams.
-/
namespace Octet

/-- What the operating system says about a failed file operation. -/
def FileError.ofSystem (error : IO.Error) : FileError :=
  match error with
  | .noFileOrDirectory .. => .notFound
  | .noSuchThing _ 6 _ => .noDevice
  | .noSuchThing .. => .notFound
  | .inappropriateType _ 20 _ => .notFolder
  | .inappropriateType _ 21 _ => .isFolder
  | .invalidArgument _ 36 _ => .nameTooLong
  | .resourceExhausted _ 28 _ => .noRoom
  | .permissionDenied _ code details => .other s!"{details} (os error {code})"
  | _ => .other (toString error)

instance : Host IO where
  isPresent path := do
    try
      let _ ← IO.FS.Handle.mk path .read
      return true
    catch error =>
      match FileError.ofSystem error with
      | .notFound | .notFolder | .nameTooLong => return false
      | _ => return true
  read path := do
    try
      let handle ← IO.FS.Handle.mk path .read
      return .ok (← handle.readBinToEnd).toList
    catch error => return .error (.ofSystem error)
  write path bytes := do
    try
      let handle ← IO.FS.Handle.mk path .write
      handle.write ⟨bytes.toArray⟩
      handle.flush
      return .ok ()
    catch error => return .error (.ofSystem error)
  print
    | .out, text => do
      IO.print text
      (← IO.getStdout).flush
    | .err, text => IO.eprint text

/-- The variables that settings depend on. -/
def readEnvironment : IO Environment := do
  let trace ← IO.getEnv "BYTESIM_TRACE"
  let maxSteps ← IO.getEnv "BYTESIM_MAX_STEPS"
  let color ← IO.getEnv "CLICOLOR_FORCE"
  return fun name =>
    match name with
    | "BYTESIM_TRACE" => trace
    | "BYTESIM_MAX_STEPS" => maxSteps
    | "CLICOLOR_FORCE" => color
    | _ => none

def Report.print (report : Report) : IO Unit := do
  let diagnostic := report.diagnostic
  if let some code := diagnostic.code then IO.eprintln code
  IO.eprintln s!"Error: {diagnostic.message}"
  for cause in report.causes do IO.eprintln s!"  caused by: {cause}"
  if let some help := diagnostic.help then IO.eprintln s!"  help: {help}"

/-- Check a file again whenever its contents change. -/
partial def watchFile (settings : Settings) (path : String)
    (seen : Except FileError (List UInt8)) : IO Unit := do
  IO.sleep 500
  let now ← Host.read path
  let changed := match seen, now with
    | .ok old, .ok new => old != new
    | .error old, .error new => old != new
    | _, _ => true
  if changed then
    Host.print .out (watchScreen settings.colored path)
    match ← assembleFile path with
    | .ok _ => Host.print .out (successLine settings.colored)
    | .error report => report.print
  watchFile settings path now

/-- Say why a command has failed. -/
def Outcome.print : Outcome → IO Unit
  | .success => pure ()
  | .failure report => report.print
  | .misuse mistake => IO.eprintln s!"error: {mistake.message}"

end Octet

open Octet in
def main (arguments : List String) : IO UInt32 := do
  let settings := Settings.ofEnvironment (← readEnvironment)
  let outcome ← respond settings arguments
  outcome.print
  match Arguments.read arguments, outcome with
  | .ok (.command (.watch path)), .success => watchFile settings path (← Host.read path)
  | _, _ => pure ()
  return UInt32.ofNat outcome.exitCode
