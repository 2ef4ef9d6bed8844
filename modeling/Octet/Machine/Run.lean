import Octet.Machine.Basic

/-!
# Runs

A run steps a machine until it halts, and an observer sees the machine and the event after every
step. The step limit counts all instructions since the last reset. Reaching it right before the halt
marker still counts as halting.
-/
namespace Octet

inductive RunError where
  | faulted (fault : Fault)
  /-- The program was still running after this many steps. -/
  | stepLimit (limit : Nat)
  deriving DecidableEq, Repr

namespace RunError

def message : RunError → String
  | .faulted fault => fault.message
  | .stepLimit limit => s!"Program did not halt within {limit} steps"

def diagnostic : RunError → Diagnostic
  | .faulted fault => fault.diagnostic
  | .stepLimit limit =>
    ⟨message (.stepLimit limit), some "run::step_limit",
      some "the program may loop forever; raise the limit with `--max-steps`"⟩

end RunError

/-- How a run ended, what its observer has gathered, and the machine it leaves. -/
structure Run (σ : Type) where
  result : Except RunError Unit
  observed : σ
  machine : Machine

namespace Machine

variable {σ : Type}

/-- Step until halt, as long as the step limit has not been reached `remaining` steps later. -/
def runFor (limit : Nat) (observe : σ → Machine → Event → σ) :
    (remaining : Nat) → σ → Machine → Run σ
  | 0, observed, machine =>
    if machine.AtHalt then
      match machine.step with
      | (.error fault, machine) => ⟨.error (.faulted fault), observed, machine⟩
      | (.ok event, machine) => ⟨.ok (), observe observed machine event, machine⟩
    else ⟨.error (.stepLimit limit), observed, machine⟩
  | remaining + 1, observed, machine =>
    match machine.step with
    | (.error fault, machine) => ⟨.error (.faulted fault), observed, machine⟩
    | (.ok .halted, machine) => ⟨.ok (), observe observed machine .halted, machine⟩
    | (.ok event, machine) =>
      runFor limit observe remaining (observe observed machine event) machine

/-- Step until halt, with at most `limit` steps since the last reset. -/
def runWith (machine : Machine) (limit : Nat) (observe : σ → Machine → Event → σ) (start : σ) :
    Run σ :=
  runFor limit observe (limit - machine.steps) start machine

/-- Step until halt and gather what is printed. -/
def run (machine : Machine) (limit : Nat) : Run (List Output) :=
  let run := machine.runWith limit (fun outputs _ event =>
    match event with
    | .printed output => output :: outputs
    | _ => outputs) []
  { run with observed := run.observed.reverse }

end Machine

end Octet
