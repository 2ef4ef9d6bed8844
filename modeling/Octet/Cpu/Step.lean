import Octet.Cpu.Basic

/-!
# Steps of the processor

One step fetches an instruction and carries it out. A fault leaves cells, registers, flags and
pointers as they were and latches, so that every later step fails until a reset. Only the note of
the last access moves as far as the step has come.
-/
namespace Octet

namespace Memory

/-- The byte that a value stands for. Reading a cell touches it. -/
def fetch (memory : Memory) : Value → UInt8 × Memory
  | .literal byte => (byte, memory)
  | .cell address => (memory.cell (.ofByte address), memory.touch (.ofByte address))

/-- What a text instruction prints: the cells from an address up to and including the first zero, at
most as many as fit above the stack pointer, and none behind the end of memory. -/
def printRun (memory : Memory) (address : UInt8) : List UInt8 :=
  let window := memory.slice address.toNat 24
  window.take (window.idxOf 0 + 1)

theorem length_slice (memory : Memory) (start count : Nat) :
    (memory.slice start count).length = min count (256 - start) := by simp [slice]

theorem length_printRun_le (memory : Memory) (address : UInt8) :
    (memory.printRun address).length ≤ 24 ∧
      address.toNat + (memory.printRun address).length ≤ 256 := by
  have := address.toNat_lt
  simp only [printRun, List.length_take, length_slice]
  omega

theorem length_printRun_pos (memory : Memory) (address : UInt8) :
    0 < (memory.printRun address).length := by
  have := address.toNat_lt
  simp only [printRun, List.length_take, length_slice]
  omega

/-- The last cell of what a text instruction prints. -/
def printEnd (memory : Memory) (address : UInt8) : Address :=
  ⟨address.toNat + (memory.printRun address).length - 1, by
    have := memory.length_printRun_le address
    have := memory.length_printRun_pos address
    omega⟩

end Memory

namespace Cpu

/-- Carry out an instruction whose successor is at `next`. -/
def perform (cpu : Cpu) (memory : Memory) (next : InstructionPointer) :
    Instruction → Except FaultKind Cpu × Memory
  | .copy target source =>
    let (byte, memory) := memory.fetch source
    (.ok { cpu with ip := next }, memory.write (.ofByte target) byte)
  | .add register amount =>
    let (byte, memory) := memory.fetch amount
    ((cpu.adjust register byte.toNat).map ({ · with ip := next }), memory)
  | .subtract register amount =>
    let (byte, memory) := memory.fetch amount
    ((cpu.adjust register (-byte.toNat)).map ({ · with ip := next }), memory)
  | .increment register => ((cpu.adjust register 1).map ({ · with ip := next }), memory)
  | .decrement register => ((cpu.adjust register (-1)).map ({ · with ip := next }), memory)
  | .compare register amount =>
    match Register.ofByte? register with
    | none => (.error (.invalidRegister register), memory)
    | some slot =>
      let (byte, memory) := memory.fetch amount
      (.ok { cpu.compareWith slot byte with ip := next }, memory)
  | .jump condition target =>
    if condition.holds cpu.zero cpu.carry then (.ok (cpu.jumpTo target), memory)
    else (.ok { cpu with ip := next }, memory)
  | .printDecimal address =>
    (.ok { cpu with ip := next, printLength := 1 },
      memory.write cpu.outputAddress (memory.cell (.ofByte address)))
  | .printText address =>
    let count := (memory.printRun address).length
    match memory.copy cpu.outputAddress address.toNat count with
    | .ok memory => (.ok { cpu with ip := next, printLength := count }, memory)
    | .error error => (.error (.memory error), memory.touch (memory.printEnd address))

/-- Fetch the instruction at the instruction pointer and carry it out. The answer tells which
instruction that was; there is none on the halt marker, where the processor stays. -/
def execute (cpu : Cpu) (memory : Memory) :
    Except FaultKind (Option Instruction × Cpu) × Memory :=
  if inside : cpu.ip.val < 256 then
    let byte := memory.byteAt cpu.ip
    match Opcode.ofByte? byte with
    | none => (.error (.invalidOpcode byte), memory.touch ⟨cpu.ip, inside⟩)
    | some op =>
      if fits : cpu.ip.val + op.width ≤ 256 then
        let fetched := memory.touch ⟨cpu.ip + op.width - 1, by have := op.width_pos; omega⟩
        match Instruction.decode? op (memory.byteAt (cpu.ip + 1)) (memory.byteAt (cpu.ip + 2)) with
        | none => (.ok (none, cpu), fetched)
        | some instruction =>
          let (result, memory) := cpu.perform fetched ⟨cpu.ip + op.width, by omega⟩ instruction
          (result.map (some instruction, ·), memory)
      else (.error (.memory (.accessViolation 256)), memory.touch (Fin.last 255))
  else (.error (.ipOutOfBounds cpu.ip), memory)

/-- One step. Nothing at all happens while a fault is latched. -/
def step (cpu : Cpu) (memory : Memory) : Except Fault (Option Instruction) × Cpu × Memory :=
  if cpu.faulted then (.error ⟨.latched, cpu.ip⟩, cpu, memory)
  else
    match cpu.execute memory with
    | (.ok (instruction?, cpu), memory) => (.ok instruction?, cpu, memory)
    | (.error kind, memory) => (.error ⟨kind, cpu.ip⟩, { cpu with faulted := true }, memory)

end Cpu

end Octet
