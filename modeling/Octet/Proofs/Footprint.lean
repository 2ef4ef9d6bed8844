import Octet.Proofs.Moves

/-!
# What a step leaves alone

For each instruction: the cells it may write, the register it may change, whether it may set the
flags or the length of the last print, and where it goes on. All else is after the step what it was
before, and everything that the step does is told from memory as it was before, also when the
instruction writes over its own bytes.
-/
namespace Octet

open Results

namespace Instruction

/-- The cells that an instruction may write, if it prints so many bytes. -/
def Writes (sp count : ℕ) : Instruction → ℕ → Prop
  | .copy target _, a => a = target.toNat
  | .printDecimal _, a => a = sp + 1
  | .printText _, a => sp + 1 ≤ a ∧ a < sp + 1 + count
  | _, _ => False

/-- The register that an instruction adds to, and what it adds as an integer. -/
def addend? (state : State) : Instruction → Option (UInt8 × ℤ)
  | .add register amount => some (register, (amount.byte state).toNat)
  | .subtract register amount => some (register, -(amount.byte state).toNat)
  | .increment register => some (register, 1)
  | .decrement register => some (register, -1)
  | _ => none

/-- Copies, jumps and prints. -/
def KeepsFlags : Instruction → Prop
  | .copy _ _ | .jump _ _ | .printDecimal _ | .printText _ => True
  | _ => False

def Prints : Instruction → Prop
  | .printDecimal _ | .printText _ => True
  | _ => False

/-- Where a program goes on: at the target of a jump that is taken, and else behind the
instruction. -/
def successor (next : ℕ) (state : State) : Instruction → ℕ
  | .jump condition target => if condition.holds state.zero state.carry then target.toNat else next
  | _ => next

/-- Arithmetic is one instruction with different amounts. -/
lemma meaning_of_addend {state : State} {instruction : Instruction} {number : UInt8} {amount : ℤ}
    (h : instruction.addend? state = some (number, amount)) (next : ℕ) :
    instruction.meaning next state = (state.adjust number amount).map (·.goto next) := by
  cases instruction <;> simp [addend?] at h <;> obtain ⟨rfl, rfl⟩ := h <;> rfl

end Instruction

/-- What an instruction leaves alone. -/
structure State.Frame (instruction : Instruction) (next : ℕ) (before after : State) : Prop where
  cells : ∀ a : Address, ¬ instruction.Writes before.sp after.printLength a →
    after.cells a = before.cells a
  /-- A text that is printed stays what it was where it was read. -/
  source : ∀ address, instruction = .printText address → ∀ i < after.printLength,
    after.byteAt (address.toNat + i) = before.byteAt (address.toNat + i)
  registers : ∀ number, (instruction.addend? before).map Prod.fst ≠ some number →
    after.register? number = before.register? number
  flags : instruction.KeepsFlags → after.zero = before.zero ∧ after.carry = before.carry
  printLength : ¬ instruction.Prints → after.printLength = before.printLength
  ip : after.ip = instruction.successor next before

namespace State

variable {before after adjusted : State} {instruction : Instruction}

lemma byteAt_eq_of_cells {address : ℕ} (h : ∀ a : Address, a.val = address →
    after.cells a = before.cells a) : after.byteAt address = before.byteAt address := by
  unfold byteAt
  split
  · exact h _ rfl
  · rfl

lemma cells_write_of_not {address : ℕ} {bytes : List UInt8} {a : Address}
    (h : ¬ (address ≤ a.val ∧ a.val < address + bytes.length)) :
    (before.write address bytes).cells a = before.cells a := by
  by_cases hle : address ≤ a.val
  · have hlength : bytes.length ≤ a.val - address := by omega
    simp [write, hlength]
  · exact if_neg hle

/-- What adding to a register leaves. A general register keeps the remainder and the stack pointer
the whole result, which is in its range, and both set the flags. -/
inductive Adjusts (state : State) (number : UInt8) (amount : ℤ) : State → Prop
  | general {raw : ℤ} (slot : number.toNat < 4)
      (result : raw = (state.general ⟨number.toNat, slot⟩).toNat + amount) :
      Adjusts state number amount { state.setFlags raw with
        general := Function.update state.general ⟨number.toNat, slot⟩ (UInt8.ofInt raw) }
  | stack {raw : ℤ} (slot : number.toNat = 4) (result : raw = state.sp + amount)
      (inside : 0 ≤ raw ∧ raw ≤ 231) :
      Adjusts state number amount { state.setFlags raw with sp := raw.toNat }

lemma adjusts_of_adjust {number : UInt8} {amount : ℤ}
    (h : before.adjust number amount = .ok adjusted) : before.Adjusts number amount adjusted := by
  unfold adjust at h
  dsimp only at h
  split_ifs at h with hgeneral hsp hlow hhigh
  · cases h
    exact .general hgeneral rfl
  · cases h
    exact .stack hsp rfl ⟨by omega, by omega⟩

/-- Adding to a register changes no other register, and nothing but that and the flags. -/
lemma adjust_frame {number : UInt8} {amount : ℤ} (h : before.adjust number amount = .ok adjusted) :
    (∀ other, number ≠ other → adjusted.register? other = before.register? other) ∧
      adjusted.cells = before.cells ∧ adjusted.printLength = before.printLength := by
  have hother {other : UInt8} (hne : number ≠ other) : other.toNat ≠ number.toNat :=
    fun heq => hne (UInt8.toNat_inj.mp heq.symm)
  cases adjusts_of_adjust h with
  | general slot result =>
    refine ⟨fun other hne => ?_, rfl, rfl⟩
    simp [register?, setFlags, hother hne]
  | stack slot result inside =>
    refine ⟨fun other hne => ?_, rfl, rfl⟩
    have hoff := hother hne
    rw [slot] at hoff
    simp [register?, setFlags, hoff]

end State

/-- Whatever is carried out stays within its frame. -/
theorem Instruction.frame_of_meaning {before after : State} {instruction : Instruction} {next : ℕ}
    (h : instruction.meaning next before = .ok after) : before.Frame instruction next after := by
  cases instruction with
  | add | subtract | increment | decrement =>
    obtain ⟨adjusted, hadjusted, rfl⟩ := map_ok_iff.mp h
    obtain ⟨hregisters, hcells, hprint⟩ := State.adjust_frame hadjusted
    refine ⟨fun a _ => congrFun hcells a, nofun, fun number hne => ?_, nofun, fun _ => hprint, rfl⟩
    exact hregisters number (by simpa [addend?] using hne)
  | compare number amount =>
    dsimp only [meaning] at h
    split at h <;> simp at h
    subst h
    exact ⟨fun _ _ => rfl, nofun, fun _ _ => rfl, nofun, fun _ => rfl, rfl⟩
  | jump condition target =>
    cases h
    exact ⟨fun _ _ => rfl, nofun, fun _ _ => rfl, fun _ => ⟨rfl, rfl⟩, fun _ => rfl, rfl⟩
  | copy target source =>
    cases h
    refine ⟨fun a ha => State.cells_write_of_not ?_, nofun, fun _ _ => rfl, fun _ => ⟨rfl, rfl⟩,
      fun _ => rfl, rfl⟩
    simp only [Writes] at ha
    simp
    omega
  | printDecimal address =>
    cases h
    refine ⟨fun a ha => State.cells_write_of_not ?_, nofun, fun _ _ => rfl, fun _ => ⟨rfl, rfl⟩,
      fun hnot => absurd trivial hnot, rfl⟩
    simp only [Writes] at ha
    simp
    omega
  | printText address =>
    dsimp only [meaning] at h
    split_ifs at h with hoverlap
    cases h
    refine ⟨fun a ha => State.cells_write_of_not ha, fun other heq i hi => ?_, fun _ _ => rfl,
      fun _ => ⟨rfl, rfl⟩, fun hnot => absurd trivial hnot, rfl⟩
    obtain rfl := printText.inj heq
    refine State.byteAt_eq_of_cells fun a ha => State.cells_write_of_not ?_
    -- the text is apart from where it is printed
    change i < (before.text 24 address.toNat).length at hi
    omega

/-! ### Halting -/

/-- Memories with the same cells are told apart by the note of the last access alone. -/
lemma Hardware.of_congr {cpu : Cpu} {memory memory' : Memory} (h : memory'.cells = memory.cells) :
    of cpu memory' = { of cpu memory with lastAccess := (of cpu memory').lastAccess } := by
  simp [of, h]

/-- What every call answers and keeps up, calls in a row do too. -/
lemma calls_of_invariant {σ ρ : Type} {step : σ → ρ × σ} {P : σ → Prop} {answer : ρ}
    (hstep : ∀ state, P state → (step state).1 = answer ∧ P (step state).2) (n : ℕ) {state : σ}
    (h : P state) :
    (calls step n state).1 = List.replicate n answer ∧ P (calls step n state).2 := by
  induction n generalizing state with
  | zero => exact ⟨rfl, h⟩
  | succ n ih =>
    obtain ⟨hanswer, hnext⟩ := hstep state h
    obtain ⟨hanswers, hlast⟩ := ih hnext
    exact ⟨by simp [calls, hanswer, hanswers, List.replicate_succ], hlast⟩

/-- On the halt marker a step only notes an access, and so does the next one. -/
lemma Cpu.step_of_halted {cpu cpu' : Cpu} {memory memory' left : Memory}
    (h : cpu.step memory = (.ok none, cpu', memory')) (hcells : left.cells = memory.cells) :
    ∃ noted : Memory, cpu.step left = (.ok none, cpu, noted) ∧ noted.cells = memory.cells := by
  have hrunning := (stays_of_step h).2.2.2
  have hnone : (cpu.step left).1 = .ok none := by
    rw [step_none_iff hrunning, Memory.byteAt_congr hcells, ← step_none_iff hrunning, h]
  rcases hstep : cpu.step left with ⟨answer, next, noted⟩
  obtain rfl : answer = .ok none := by simpa [hstep] using hnone
  obtain ⟨rfl, hnoted, -⟩ := stays_of_step hstep
  exact ⟨noted, rfl, hnoted.trans hcells⟩

/-! ### Steps -/

/-- A step that succeeds stays within the frame of its instruction. The instruction and its operands
are those in memory before the step, and with them the cells, registers and flags that it writes,
what it writes there, and where it goes on. Everything else is as it was. Staying on the halt marker
changes nothing but the note of the last access, however often it is done. All this holds of the
processor and of the step in place. -/
theorem step_stays_in_frame :
    (∀ (cpu cpu' : Cpu) (memory memory' : Memory) (instruction : Instruction),
      cpu.step memory = (.ok (some instruction), cpu', memory') →
        let before := State.of cpu memory
        let after := State.of cpu' memory'
        before.Goes instruction after ∧
        before.Frame instruction (before.ip + instruction.width) after ∧ cpu'.faulted = false) ∧
    (∀ (cpu cpu' : Cpu) (memory memory' : Memory),
      cpu.step memory = (.ok none, cpu', memory') →
        cpu' = cpu ∧ memory'.cells = memory.cells ∧ ∀ n,
          let halting := calls (fun state : Cpu × Memory => state.1.step state.2) n (cpu', memory')
          halting.1 = List.replicate n (.ok none) ∧
          halting.2.1 = cpu ∧ halting.2.2.cells = memory.cells) ∧
    (∀ hardware left : Hardware, hardware.InRange → hardware.step = (.ok true, left) →
      left.faulted = false ∧ ∃ instruction, hardware.state.Goes instruction left.state ∧
        hardware.state.Frame instruction (hardware.ip + instruction.width) left.state) ∧
    (∀ hardware left : Hardware, hardware.InRange → hardware.step = (.ok false, left) →
      left = { hardware with lastAccess := left.lastAccess } ∧ ∀ n,
        let halting := calls Hardware.step n left
        halting.1 = List.replicate n (.ok false) ∧
        halting.2 = { hardware with lastAccess := halting.2.lastAccess }) := by
  refine ⟨fun cpu cpu' memory memory' instruction h => ?_, fun cpu cpu' memory memory' h => ?_,
    fun hardware left hrange h => ?_, fun hardware left hrange h => ?_⟩
  · obtain ⟨hgoes, hstill⟩ := Cpu.goes_of_step h
    exact ⟨hgoes, Instruction.frame_of_meaning hgoes.meaning, hstill⟩
  · obtain ⟨rfl, hcells, -⟩ := Cpu.stays_of_step h
    refine ⟨rfl, hcells, fun n => ?_⟩
    refine calls_of_invariant (P := fun state : Cpu × Memory =>
      state.1 = cpu' ∧ state.2.cells = memory.cells) ?_ n ⟨rfl, hcells⟩
    rintro ⟨_, left⟩ ⟨rfl, hleft⟩
    obtain ⟨noted, hstep, hnoted⟩ := Cpu.step_of_halted h hleft
    simp [hstep, hnoted]
  · obtain ⟨hstill, instruction, hgoes⟩ := Hardware.goes_of_step hrange h
    exact ⟨hstill, instruction, hgoes, Instruction.frame_of_meaning hgoes.meaning⟩
  · obtain ⟨cpu, memory, _ | instruction, cpu', memory', rfl, rfl, hrunning, hstep⟩ :=
      Hardware.exists_cpu_of_step hrange h
    swap
    · simp at hrunning
    obtain ⟨rfl, hcells, -⟩ := Cpu.stays_of_step hstep
    have hstay : ∀ state, (∃ left, state = Hardware.of cpu' left ∧ left.cells = memory.cells) →
        state.step.1 = .ok false ∧
          ∃ left, state.step.2 = Hardware.of cpu' left ∧ left.cells = memory.cells := by
      rintro _ ⟨left, rfl, hleft⟩
      obtain ⟨noted, hnext, hnoted⟩ := Cpu.step_of_halted hstep hleft
      rw [Hardware.step_of, hnext]
      exact ⟨rfl, noted, rfl, hnoted⟩
    refine ⟨Hardware.of_congr hcells, fun n => ?_⟩
    obtain ⟨hanswers, left, hleft, hsame⟩ := calls_of_invariant hstay n ⟨memory', rfl, hcells⟩
    refine ⟨hanswers, ?_⟩
    rw [hleft]
    exact Hardware.of_congr hsame

/-- A copy that writes over its own operands goes on behind them and writes nothing else. -/
theorem step_stays_in_frame_sample :
    let machine := (Machine.load [2, 1, 7]).2
    let (answer, cpu, memory) := machine.cpu.step machine.memory
    answer = .ok (some (.copy 1 (.literal 7))) ∧ memory.cell 1 = 7 ∧ cpu.ip.val = 3 ∧
      ∀ a : Address, a.val ≠ 1 → memory.cell a = machine.memory.cell a := by
  intro machine
  have hanswer : (machine.cpu.step machine.memory).1 = .ok (some (.copy 1 (.literal 7))) := by
    decide +kernel
  have hwritten : (machine.cpu.step machine.memory).2.2.cell 1 = 7 := by decide +kernel
  rcases hstep : machine.cpu.step machine.memory with ⟨answer, cpu, memory⟩
  rw [hstep] at hanswer hwritten
  obtain rfl : answer = .ok (some (.copy 1 (.literal 7))) := hanswer
  obtain ⟨-, hframe, -⟩ := step_stays_in_frame.1 _ _ _ _ _ hstep
  have hip : machine.cpu.ip.val = 0 := by decide +kernel
  have hnext : cpu.ip.val = machine.cpu.ip.val + 3 := hframe.ip
  exact ⟨rfl, hwritten, by omega, fun a ha => hframe.cells a ha⟩

end Octet
