import Octet.Assembly.Error
import Octet.Command.Arguments
import Octet.Command.Host
import Octet.Machine.Run

/-!
# Responses

How a command ends, and what a run shows before.
-/
namespace Octet

/-- An error as it is reported, with the errors that caused it. -/
structure Report where
  diagnostic : Diagnostic
  causes : List String
  deriving DecidableEq, Repr

namespace Report

/-- A report that is nothing but its message. -/
def ofMessage (message : String) : Report := ⟨⟨message, none, none⟩, []⟩

def ofFile (error : FileError) : Report := ofMessage error.message

def ofAssembly (error : AssemblyError) : Report := ⟨error.diagnostic, []⟩

def ofRun (error : RunError) : Report := ⟨error.diagnostic, []⟩

/-- Put a message on top, which the present one has caused. -/
def within (report : Report) (message : String) : Report :=
  ⟨{ report.diagnostic with message }, report.diagnostic.message :: report.causes⟩

end Report

inductive Outcome where
  | success
  | failure (report : Report)
  | misuse (mistake : Misuse)
  deriving DecidableEq, Repr

def Outcome.exitCode : Outcome → Nat
  | .success => 0
  | .failure _ => 1
  | .misuse _ => 2

structure Response where
  out : String
  trace : String
  outcome : Outcome
  deriving DecidableEq, Repr

/-- Show a response, and end as it says. -/
def Response.present {m : Type → Type} [Monad m] [Host m] (response : Response) : m Outcome := do
  Host.print .out response.out
  Host.print .err response.trace
  return response.outcome

end Octet
