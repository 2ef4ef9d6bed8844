import Octet.Memory
import Octet.Diagnostic

/-!
# Faults

Why the processor stopped, and where.
-/
namespace Octet

inductive FaultKind where
  /-- An earlier fault has not been cleared by a reset. -/
  | latched
  | invalidOpcode (byte : UInt8)
  | invalidRegister (byte : UInt8)
  | ipOutOfBounds (ip : Nat)
  /-- Kept for jumps to wider addresses; one byte always names a cell. -/
  | jumpOutOfBounds (target : Nat)
  | stackOverflow
  | stackUnderflow
  /-- Kept for division instructions. -/
  | divisionByZero
  | memory (error : MemoryError)
  deriving DecidableEq, Repr

structure Fault where
  kind : FaultKind
  /-- The instruction pointer when the faulting step began. -/
  ip : Nat
  deriving DecidableEq, Repr

namespace FaultKind

def message : FaultKind → String
  | .latched => "FAULT. Reset to continue."
  | .invalidOpcode byte => s!"Invalid op code: {byte}"
  | .invalidRegister byte => s!"Invalid register: {byte}"
  | .ipOutOfBounds _ => "Instruction pointer is outside of memory"
  | .jumpOutOfBounds target => s!"IP outside memory: {target}"
  | .stackOverflow => "Stack overflow"
  | .stackUnderflow => "Stack underflow"
  | .divisionByZero => "Division by 0"
  | .memory error => error.message

def code : FaultKind → String
  | .latched => "run::latched"
  | .invalidOpcode _ => "run::opcode"
  | .invalidRegister _ => "run::register"
  | .ipOutOfBounds _ | .jumpOutOfBounds _ => "run::ip"
  | .stackOverflow | .stackUnderflow => "run::stack"
  | .divisionByZero => "run::division"
  | .memory _ => "run::memory"

def help? : FaultKind → Option String
  | .latched => some "reset the machine to run again"
  | .invalidOpcode _ =>
    some "execution reached data; make sure data is placed after the last instruction"
  | .invalidRegister _ => some "registers 0-3 are general purpose, 4 is the stack pointer"
  | .stackOverflow | .stackUnderflow => some "the stack pointer must stay between 0 and 231"
  | _ => none

end FaultKind

def Fault.message (fault : Fault) : String := s!"{fault.kind.message} (IP = {fault.ip})"

def Fault.diagnostic (fault : Fault) : Diagnostic :=
  ⟨fault.message, some fault.kind.code, fault.kind.help?⟩

end Octet
