import Octet.Proofs.Semantics
import Octet.Machine.Run

/-!
# What a step can do

Fetching ends in one of five ways, and each later fact about steps is a look at these. A step that
fails has changed nothing but the fault flag and the note of the last access, and a step halts
exactly on the halt marker.
-/
namespace Octet

open Results

/-- The ways in which fetching and carrying out can end. Fetched memory has the same cells. -/
inductive Cpu.Execution (cpu : Cpu) (memory : Memory) :
    Except FaultKind (Option Instruction × Cpu) × Memory → Prop
  | outside (behind : 256 ≤ cpu.ip.val) :
      Execution cpu memory (.error (.ipOutOfBounds cpu.ip), memory)
  | invalid {fetched : Memory} (cells : fetched.cells = memory.cells) (inside : cpu.ip.val < 256)
      (unknown : Opcode.ofByte? (memory.byteAt cpu.ip) = none) :
      Execution cpu memory (.error (.invalidOpcode (memory.byteAt cpu.ip)), fetched)
  | overrun {fetched : Memory} (cells : fetched.cells = memory.cells) {op : Opcode}
      (opcode : memory.byteAt cpu.ip = op.toByte) (inside : cpu.ip.val < 256)
      (cut : 256 < cpu.ip + op.width) :
      Execution cpu memory (.error (.memory (.accessViolation 256)), fetched)
  | halt {fetched : Memory} (cells : fetched.cells = memory.cells)
      (opcode : memory.byteAt cpu.ip = Opcode.halt.toByte) (inside : cpu.ip.val < 256) :
      Execution cpu memory (.ok (none, cpu), fetched)
  | carryOut {fetched : Memory} (cells : fetched.cells = memory.cells) {op : Opcode}
      (opcode : memory.byteAt cpu.ip = op.toByte) (next : InstructionPointer)
      (behind : next.val = cpu.ip + op.width) {instruction : Instruction}
      (decoded : Instruction.decode? op (memory.byteAt (cpu.ip + 1)) (memory.byteAt (cpu.ip + 2)) =
        some instruction) :
      Execution cpu memory ((cpu.perform fetched next instruction).1.map (some instruction, ·),
        (cpu.perform fetched next instruction).2)

namespace Cpu

variable {cpu cpu' : Cpu} {memory memory' : Memory}

theorem execution (cpu : Cpu) (memory : Memory) : cpu.Execution memory (cpu.execute memory) := by
  unfold execute
  split
  · next inside =>
    dsimp only
    split
    · next unknown => exact .invalid rfl inside unknown
    · next op hop =>
      have hbyte := Opcode.ofByte?_eq_some_iff.mp hop
      split
      · next fits =>
        split
        · next hnone =>
          obtain rfl := Instruction.decode?_eq_none_iff.mp hnone
          exact .halt rfl hbyte inside
        · next instruction hsome =>
          exact .carryOut (memory.cells_touch _) hbyte ⟨cpu.ip + op.width, by omega⟩ rfl hsome
      · next hcut => exact .overrun rfl hbyte inside (by omega)
  · next houtside => exact .outside (by omega)

variable {result : Except FaultKind (Option Instruction × Cpu) × Memory}

/-- All cells are as they were when an instruction fails. -/
lemma Execution.cells_of_error (h : cpu.Execution memory result) {kind : FaultKind}
    (herror : result.1 = .error kind) : result.2.cells = memory.cells := by
  cases h with
  | outside => rfl
  | invalid cells | overrun cells => exact cells
  | halt => cases herror
  | carryOut cells =>
    rw [← cells]
    exact cells_of_perform_error (map_error_iff.mp herror)

lemma Execution.faulted_of_ok (h : cpu.Execution memory result) {instruction? : Option Instruction}
    (hok : result.1 = .ok (instruction?, cpu')) : cpu'.faulted = cpu.faulted := by
  cases h with
  | outside | invalid | overrun => cases hok
  | halt =>
    cases hok
    rfl
  | carryOut =>
    obtain ⟨performed, hperformed, heq⟩ := map_ok_iff.mp hok
    cases heq
    exact (performed_of_perform hperformed).faulted_eq

lemma getElem?_eq_some_iff_byteAt {address : ℕ} {byte : UInt8} :
    memory.cells[address]? = some byte ↔ address < 256 ∧ memory.byteAt address = byte := by
  unfold Memory.byteAt
  by_cases h : address < 256 <;> simp [h]

/-- Without an instruction to carry out, the processor stays on the halt marker. -/
lemma Execution.of_none (h : cpu.Execution memory result) (hnone : result.1 = .ok (none, cpu')) :
    cpu' = cpu ∧ result.2.cells = memory.cells ∧
      memory.cells[cpu.ip.val]? = some Opcode.halt.toByte := by
  cases h with
  | outside | invalid | overrun => cases hnone
  | halt cells opcode inside =>
    cases hnone
    exact ⟨rfl, cells, getElem?_eq_some_iff_byteAt.mpr ⟨inside, opcode⟩⟩
  | carryOut =>
    obtain ⟨_, _, heq⟩ := map_ok_iff.mp hnone
    cases heq

lemma Execution.none_of_halt (h : cpu.Execution memory result)
    (hhalt : memory.cells[cpu.ip.val]? = some Opcode.halt.toByte) :
    result.1 = .ok (none, cpu) := by
  obtain ⟨inside, hbyte⟩ := getElem?_eq_some_iff_byteAt.mp hhalt
  cases h with
  | outside behind => omega
  | invalid cells _ unknown =>
    rw [hbyte, Opcode.ofByte?_toByte] at unknown
    cases unknown
  | overrun cells opcode _ cut =>
    obtain rfl := Opcode.toByte_inj.mp (hbyte.symm.trans opcode)
    have hwidth : Opcode.halt.width = 1 := rfl
    omega
  | halt => rfl
  | carryOut cells opcode next behind decoded =>
    obtain rfl := Opcode.toByte_inj.mp (hbyte.symm.trans opcode)
    cases decoded

end Cpu

namespace Machine

variable {machine : Machine}

lemma event_ne_halted (machine : Machine) (instruction : Instruction) :
    machine.event instruction ≠ .halted := by
  cases instruction <;> nofun

/-- The ways in which a step of the machine can end. -/
inductive Outcome (machine : Machine) : Except Fault Event × Machine → Prop
  | latched (faulted : machine.cpu.faulted = true) :
      Outcome machine (.error ⟨.latched, machine.cpu.ip⟩, machine)
  | fault (running : machine.cpu.faulted = false) (off : ¬ machine.AtHalt) (kind : FaultKind)
      {memory : Memory} (cells : memory.cells = machine.memory.cells) :
      Outcome machine (.error ⟨kind, machine.cpu.ip⟩,
        { machine with memory, cpu := { machine.cpu with faulted := true } })
  | halted (running : machine.cpu.faulted = false) (on : machine.AtHalt)
      {memory : Memory} (cells : memory.cells = machine.memory.cells) :
      Outcome machine (.ok .halted, { machine with memory })
  | stepped (running : machine.cpu.faulted = false) (off : ¬ machine.AtHalt) {event : Event}
      (ne_halted : event ≠ .halted) {cpu : Cpu} (still : cpu.faulted = false) (memory : Memory) :
      Outcome machine (.ok event, ⟨memory, cpu, machine.steps + 1⟩)

theorem outcome (machine : Machine) : machine.Outcome machine.step := by
  obtain ⟨memory, cpu, steps⟩ := machine
  have hexecution := cpu.execution memory
  unfold step Cpu.step
  cases hfaulted : cpu.faulted with
  | true => exact .latched hfaulted
  | false =>
    rw [if_neg Bool.false_ne_true]
    rcases hresult : cpu.execute memory with ⟨kind | ⟨_ | instruction, cpu'⟩, memory'⟩
    all_goals rw [hresult] at hexecution
    · have off : ¬ AtHalt ⟨memory, cpu, steps⟩ := fun on => by
        cases hexecution.none_of_halt on
      exact .fault hfaulted off kind (hexecution.cells_of_error rfl)
    · obtain ⟨rfl, cells, hhalt⟩ := hexecution.of_none rfl
      have on : AtHalt ⟨memory, cpu', steps⟩ := hhalt
      exact .halted hfaulted on cells
    · have off : ¬ AtHalt ⟨memory, cpu, steps⟩ := fun on => by
        cases hexecution.none_of_halt on
      have still := hexecution.faulted_of_ok rfl
      exact .stepped hfaulted off (event_ne_halted _ _) (still.trans hfaulted) memory'

end Machine

end Octet
