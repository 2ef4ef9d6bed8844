import Octet.Assembly.Draft
import Octet.Command.Path
import Octet.Command.Response
import Octet.Terminal.Registers
import Octet.Text.Whitespace

/-!
# Commands

Each command reads at most one file and writes at most one. What it does in between depends on the
contents of the file alone.
-/
namespace Octet

open Text (padLeft padRight hexByte)

/-- A status line: a word in twelve columns, and what there is to say. -/
def statusLine (colored : Bool) (color : Text.Color) (word message : String) : String :=
  let word := padLeft 12 ' ' word
  (if colored then color.paint word else word) ++ " " ++ message ++ "\n"

/-- A status line about a file. -/
def targetLine (colored : Bool) (word path : String) : String :=
  statusLine colored .green word s!"target {path}"

def introduction : String :=
  "\n~ bytesim v0.1.0 ~\n\n" ++
  "Welcome to bytesim, an assembler and simulator for a tiny 8-bit machine:\n" ++
  "four registers, a stack pointer, zero and carry flags, and 256 bytes of memory.\n" ++
  "Please use `-h` or `--help` to access the usage instructions and documentation.\n\n"

def versionText : String := "bytesim 0.1.0\n"

def helpText : String :=
  "Assembles and runs programs for a tiny 8-bit machine with 256 bytes of memory.\n\n" ++
  "Usage: bytesim [PATH] [COMMAND]\n\n" ++
  "Commands:\n" ++
  "  run [-m] [-t] [--max-steps N] PATH  Run a `.asm` or `.bin` file\n" ++
  "  compile PATH [DEST]                 Write the image of a `.asm` file\n" ++
  "  check PATH                          Check a `.asm` file\n" ++
  "  labels PATH                         Print the labels and lines of a `.asm` file\n" ++
  "  watch PATH                          Check a `.asm` file whenever it changes\n"

/-- Show what a step has printed, and the registers after it if the run is traced. -/
def observe (trace : Bool) (terminal : Terminal) (machine : Machine) (event : Event) : Terminal :=
  let terminal := match event with
    | .printed output => terminal.printOutput .normal output
    | _ => terminal
  if trace && event != .halted then
    (terminal.print .sometimes s!"step {machine.steps} -> IP 0x{hexByte machine.cpu.ip}\n")
      |>.printRegisters .always machine.cpu
  else terminal

/-- A line of the source as a report quotes it. -/
def quotedLine (source : String) (line : Nat) : String :=
  String.ofList (Text.trim ((Text.shownLines source.toList)[line]?.getD []))

/-- Point at the source line of the faulting instruction, if it is known. -/
def runReport (error : RunError) (program : Program) (source? : Option String) : Report :=
  let line? := match error with
    | .faulted fault => program.lineOf? fault.ip
    | .stepLimit _ => none
  match line?, source? with
  | some line, some source =>
    (Report.ofRun error).within s!"at line {line + 1}: {quotedLine source line}"
  | _, _ => .ofRun error

/-- Run a program that has been read from a path. -/
def runProgram (settings : Settings) (options : RunOptions) (path : String) (program : Program)
    (source? : Option String) : Response :=
  match Machine.load program.code with
  | (.error fault, _) => ⟨"", "", .failure (.ofRun (.faulted fault))⟩
  | (.ok (), machine) =>
    let out := statusLine settings.colored .green "Running" "emitted binary"
    let terminal := { Terminal.initial options.minimal settings.colored with out }
    let limit := options.maxSteps.getD settings.maxSteps
    let run := machine.runWith limit (observe (options.trace || settings.trace)) terminal
    let terminal := run.observed.startLine .normal
    match run.result with
    | .ok () =>
      let closing :=
        statusLine settings.colored .green "Halted" s!"after {run.machine.steps} steps" ++
          targetLine settings.colored "Completed" path
      ⟨terminal.out ++ closing, terminal.err, .success⟩
    | .error error =>
      ⟨terminal.out ++ statusLine settings.colored .red "Fault" error.message, terminal.err,
        .failure (runReport error program source?)⟩

/-- The table of labels and the table of lines. -/
def listing (colored : Bool) (program : Program) : String :=
  let indent := padLeft 12 ' ' ""
  let label : Label × Nat → String := fun (label, offset) =>
    let name := padRight 16 ' ' label.name
    s!"{indent} {name} 0x{hexByte offset}\n"
  let row : Nat × Nat → String := fun (offset, line) =>
    match (program.code[offset]?).bind Opcode.ofByte? with
    | some op =>
      let number := padRight 4 ' ' (toString (line + 1))
      s!"{indent} 0x{hexByte offset} -> {number} {op.name}\n"
    | none => s!"{indent} 0x{hexByte offset} -> {line + 1}\n"
  statusLine colored .cyan "Labels" s!"{program.labels.length} declared" ++
    String.join (program.labels.map label) ++
    statusLine colored .cyan "Mapping" "offset -> line" ++
    String.join (program.mapping.map row)

/-- What assembling without error is answered with. -/
def successLine (colored : Bool) : String :=
  statusLine colored .green "Success" "no errors found!"

/-- What is shown while a file is watched. The screen is cleared first. -/
def watchScreen (colored : Bool) (path : String) : String :=
  "\x1b[2J\x1b[2;1H" ++ targetLine colored "Watching" path ++
    statusLine colored .cyan "Help" "press CTRL+C to exit"

variable {m : Type → Type} [Monad m] [Host m]

/-- Read a source file and assemble it. -/
def assembleFile (path : String) : m (Except Report (String × Program)) := do
  match ← readText path with
  | .error error => return .error (.ofFile error)
  | .ok source =>
    match assemble source with
    | .error error => return .error (.ofAssembly error)
    | .ok program => return .ok (source, program)

/-- The extension decides whether a file is a source or an image. -/
def performRun (settings : Settings) (path : String) (options : RunOptions) : m Outcome := do
  Host.print .out (targetLine settings.colored "Assembling" path)
  match Path.extension? path with
  | some "bin" =>
    match ← Host.read path with
    | .error error => return .failure (.ofFile error)
    | .ok image =>
      if 256 < image.length then
        return .failure (.ofMessage s!"Image is {image.length} bytes, memory only holds 256")
      else (runProgram settings options path (.ofImage image) none).present
  | some "asm" =>
    match ← assembleFile path with
    | .error report => return .failure report
    | .ok (source, program) => (runProgram settings options path program (some source)).present
  | some _ => return .failure (.ofMessage "File has unknown extension. Exiting...")
  | none => return .failure (.ofMessage "File has no extension. Exiting...")

/-- The image goes to a file of the same name with another extension, if no other is given. -/
def performCompile (settings : Settings) (path : String) (destination? : Option String) :
    m Outcome := do
  Host.print .out (targetLine settings.colored "Assembling" path)
  match ← assembleFile path with
  | .error report => return .failure report
  | .ok (_, program) =>
    let destination := destination?.getD (Path.withExtension path "bin")
    match ← Host.write destination program.code with
    | .error error => return .failure (.ofFile error)
    | .ok () =>
      Host.print .out
        (statusLine settings.colored .green "Finished" s!"emit {program.code.length} bytes")
      Host.print .out (targetLine settings.colored "Saved" destination)
      return .success

def performCheck (settings : Settings) (path : String) : m Outcome := do
  Host.print .out (targetLine settings.colored "Checking" path)
  match ← assembleFile path with
  | .error report => return .failure report
  | .ok _ =>
    Host.print .out (successLine settings.colored)
    return .success

def performLabels (settings : Settings) (path : String) : m Outcome := do
  Host.print .out (targetLine settings.colored "Assembling" path)
  match ← assembleFile path with
  | .error report => return .failure report
  | .ok (_, program) =>
    Host.print .out (listing settings.colored program)
    return .success

def performWatch (settings : Settings) (path : String) : m Outcome := do
  if ← Host.isPresent path then
    Host.print .out (watchScreen settings.colored path)
    return .success
  else return .failure (.ofMessage "File does not exist. Exiting...")

def Command.perform (settings : Settings) : Command → m Outcome
  | .introduce => do
    Host.print .out introduction
    return .success
  | .run path options => performRun settings path options
  | .compile path destination? => performCompile settings path destination?
  | .check path => performCheck settings path
  | .labels path => performLabels settings path
  | .watch path => performWatch settings path

/-- Read the arguments and do what they ask for. -/
def respond (settings : Settings) (arguments : List String) : m Outcome := do
  match Arguments.read arguments with
  | .error mistake => return .misuse mistake
  | .ok .help =>
    Host.print .out helpText
    return .success
  | .ok .version =>
    Host.print .out versionText
    return .success
  | .ok (.command command) => command.perform settings

end Octet
