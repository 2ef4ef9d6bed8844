import Octet.Machine.Basic
import Octet.Text.Escape

/-!
# The terminal

Program output goes to one stream, traces go to another. The terminal knows whether the last visible
character was a line feed, so that output and traces always start on a line of their own. In minimal
mode traces lose their styles, and those that only help a reader are dropped.
-/
namespace Octet

inductive Channel where
  /-- Program output. -/
  | normal
  /-- Traces that are shown in every mode. -/
  | always
  /-- Traces that are dropped in minimal mode. -/
  | sometimes
  deriving DecidableEq, Repr

structure Terminal where
  minimal : Bool
  /-- Traces may be coloured. -/
  colored : Bool
  /-- The next character starts a line. -/
  lineStart : Bool
  /-- All program output so far. -/
  out : String
  /-- All traces so far. -/
  err : String
  deriving DecidableEq, Repr

namespace Terminal

/-- A terminal on which nothing has been shown. -/
def initial (minimal colored : Bool) : Terminal := ⟨minimal, colored, true, "", ""⟩

/-- Text that shows nothing leaves the cursor where it is. -/
def moveCursor (terminal : Terminal) (text : String) : Terminal :=
  match (Text.visible text.toList).getLast? with
  | some c => { terminal with lineStart := c = '\n' }
  | none => terminal

def writeOut (terminal : Terminal) (text : String) : Terminal :=
  { terminal with out := terminal.out ++ text }

def writeErr (terminal : Terminal) (text : String) : Terminal :=
  { terminal with err := terminal.err ++ text }

/-- How a trace text is written outside minimal mode. -/
def decorate (terminal : Terminal) (text : String) : String :=
  if terminal.colored then Text.Color.blue.paint text else text

def print (terminal : Terminal) (channel : Channel) (text : String) : Terminal :=
  match channel, terminal.minimal with
  | .normal, _ => (terminal.writeOut text).moveCursor text
  | .sometimes, true => terminal
  | .always, true =>
    (terminal.writeErr (String.ofList (Text.visible text.toList))).moveCursor text
  | _, false => (terminal.writeErr (terminal.decorate text)).moveCursor text

/-- Go to the start of a line, unless the cursor is there. -/
def startLine (terminal : Terminal) (channel : Channel) : Terminal :=
  if terminal.lineStart then terminal else terminal.print channel "\n"

/-- Print a value on a line of its own. -/
def printOutput (terminal : Terminal) (channel : Channel) (output : Output) : Terminal :=
  (terminal.startLine channel).print channel (output.display ++ "\n")

end Terminal

end Octet
