import Octet.Cpu.Evaluation
import Octet.Cpu.Fault
import Octet.Instruction.Basic
import Octet.Instruction.Register

/-!
# The processor

Registers, flags and pointers. The stack pointer stays so far below the end of memory that the
longest text still fits above it, and the instruction pointer may stand just behind the last cell.
-/
namespace Octet

/-- The stack pointer is at most 231, which it holds after a reset. One instruction prints at most
24 cells, and they fit into what is left above. -/
abbrev StackPointer := Fin 232

/-- The address of a cell, or 256 behind the last one. -/
abbrev InstructionPointer := Fin 257

structure Cpu where
  general : Vector UInt8 4
  sp : StackPointer
  ip : InstructionPointer
  zero : Bool
  carry : Bool
  /-- A fault has happened since the last reset. -/
  faulted : Bool
  /-- How many cells above the stack pointer the last print instruction filled. -/
  printLength : Nat
  deriving DecidableEq

namespace Cpu

/-- The processor after a reset. -/
def initial : Cpu where
  general := Vector.replicate 4 0
  sp := Fin.last 231
  ip := 0
  zero := false
  carry := false
  faulted := false
  printLength := 0

/-- Start over, whatever the processor has come to. -/
def reset (_cpu : Cpu) : Cpu := initial

@[simp] theorem reset_eq (cpu : Cpu) : cpu.reset = initial := rfl

def register (cpu : Cpu) : Register → Nat
  | .general index => (cpu.general.get index).toNat
  | .stackPointer => cpu.sp

/-- Where print instructions leave what they print. -/
def outputAddress (cpu : Cpu) : Address := ⟨cpu.sp + 1, by omega⟩

def setFlags (cpu : Cpu) (evaluation : Evaluation) : Cpu :=
  { cpu with zero := evaluation.zero, carry := evaluation.carry }

/-- Add to a register. General registers wrap around. The stack pointer does not, and leaving its
range is a fault. -/
def adjust (cpu : Cpu) (register : UInt8) (amount : Int) : Except FaultKind Cpu :=
  match Register.ofByte? register with
  | none => .error (.invalidRegister register)
  | some (.general index) =>
    let evaluation := Evaluation.ofInt ((cpu.general.get index).toNat + amount)
    .ok { cpu.setFlags evaluation with
      general := cpu.general.set index evaluation.value index.isLt }
  | some .stackPointer =>
    let raw := cpu.sp.val + amount
    if raw < 0 then .error .stackOverflow
    else if h : raw ≤ 231 then
      .ok { cpu.setFlags (Evaluation.ofInt raw) with sp := ⟨raw.toNat, by omega⟩ }
    else .error .stackUnderflow

/-- Set the flags by the difference of a register and a byte. -/
def compareWith (cpu : Cpu) (register : Register) (byte : UInt8) : Cpu :=
  cpu.setFlags (Evaluation.ofInt (cpu.register register - byte.toNat))

def jumpTo (cpu : Cpu) (target : UInt8) : Cpu :=
  { cpu with ip := ⟨target.toNat, by have := target.toNat_lt; omega⟩ }

end Cpu

end Octet
