import Octet.Proofs.Faults

/-!
# Bookkeeping

A machine notes which cell was touched last, how much was printed last and how many instructions it
has carried out. None of this decides what it does next. Two machines that differ in nothing else
answer alike, step for step. The length of what was printed is read back when an output is told,
and only behind instructions that have just set it.
-/
namespace Octet

variable (cells : Vector UInt8 256) (note note' : Option Address)

namespace Cpu

/-- The processor as it is after an instruction, or after none, if another length of the last print
was noted before. An instruction that prints sets this length itself. -/
def noting (length : ℕ) (cpu : Cpu) : Option Instruction → Cpu
  | some (.printDecimal _) | some (.printText _) => cpu
  | _ => { cpu with printLength := length }

variable (cpu : Cpu) (length : ℕ)

lemma adjust_printLength (number : UInt8) (amount : ℤ) :
    adjust { cpu with printLength := length } number amount =
      (cpu.adjust number amount).map ({ · with printLength := length }) := by
  unfold adjust
  split
  · rfl
  · rfl
  · dsimp only
    split_ifs
    all_goals rfl

lemma adjust_noting (number : UInt8) (amount : ℤ) (next : InstructionPointer) :
    (adjust { cpu with printLength := length } number amount).map ({ · with ip := next }) =
      ((cpu.adjust number amount).map ({ · with ip := next })).map
        ({ · with printLength := length }) := by
  rw [cpu.adjust_printLength length]
  cases cpu.adjust number amount <;> rfl

/-- What an instruction does depends on the cells of memory, and on nothing that is only noted. -/
theorem perform_noting (next : InstructionPointer) (instruction : Instruction) :
    (perform { cpu with printLength := length } ⟨cells, note'⟩ next instruction).1 =
        (cpu.perform ⟨cells, note⟩ next instruction).1.map (·.noting length (some instruction)) ∧
      (perform { cpu with printLength := length } ⟨cells, note'⟩ next instruction).2.cells =
        (cpu.perform ⟨cells, note⟩ next instruction).2.cells := by
  cases instruction with
  | copy target source => cases source <;> exact ⟨rfl, rfl⟩
  | add register amount | subtract register amount =>
    cases amount <;> exact ⟨cpu.adjust_noting length register _ next, rfl⟩
  | increment register | decrement register => exact ⟨cpu.adjust_noting length register _ next, rfl⟩
  | compare register amount =>
    dsimp only [perform]
    rcases Register.ofByte? register with _ | _ | _
    all_goals cases amount <;> exact ⟨rfl, rfl⟩
  | jump condition target =>
    dsimp only [perform]
    split_ifs
    all_goals exact ⟨rfl, rfl⟩
  | printDecimal address => exact ⟨rfl, rfl⟩
  | printText address =>
    have hrun : Memory.printRun ⟨cells, note'⟩ address = Memory.printRun ⟨cells, note⟩ address :=
      rfl
    have houtput : outputAddress { cpu with printLength := length } = cpu.outputAddress := rfl
    dsimp only [perform]
    rw [hrun, houtput]
    unfold Memory.copy
    split_ifs
    all_goals exact ⟨rfl, rfl⟩

lemma map_noting (result : Except FaultKind Cpu) (instruction : Instruction) :
    (result.map (·.noting length (some instruction))).map (some instruction, ·) =
      (result.map (some instruction, ·)).map fun (instruction?, left) =>
        (instruction?, left.noting length instruction?) := by
  cases result <;> rfl

/-- Fetching looks at the cells alone, too. -/
theorem execute_noting :
    (execute { cpu with printLength := length } ⟨cells, note'⟩).1 =
        (cpu.execute ⟨cells, note⟩).1.map (fun (instruction?, left) =>
          (instruction?, left.noting length instruction?)) ∧
      (execute { cpu with printLength := length } ⟨cells, note'⟩).2.cells =
        (cpu.execute ⟨cells, note⟩).2.cells := by
  have hbyte (address : ℕ) :
    Memory.byteAt ⟨cells, note'⟩ address = Memory.byteAt ⟨cells, note⟩ address := rfl
  unfold execute
  simp only [hbyte]
  split
  · split
    · exact ⟨rfl, rfl⟩
    · split
      · split
        · exact ⟨rfl, rfl⟩
        · next instruction _ =>
          obtain ⟨hresult, hcells⟩ :=
            perform_noting cells (some _) (some _) cpu length _ instruction
          exact ⟨(congrArg (Except.map _) hresult).trans (map_noting length _ instruction), hcells⟩
      · exact ⟨rfl, rfl⟩
  · exact ⟨rfl, rfl⟩

/-- One step answers alike, whatever was noted before. -/
theorem step_noting :
    (step { cpu with printLength := length } ⟨cells, note'⟩).1 = (cpu.step ⟨cells, note⟩).1 ∧
      (step { cpu with printLength := length } ⟨cells, note'⟩).2.2.cells =
        (cpu.step ⟨cells, note⟩).2.2.cells ∧
      (step { cpu with printLength := length } ⟨cells, note'⟩).2.1 =
        (cpu.step ⟨cells, note⟩).2.1.noting length
          ((cpu.step ⟨cells, note⟩).1.toOption.join) := by
  obtain ⟨hresult, hcells⟩ := execute_noting cells note note' cpu length
  unfold step
  dsimp only
  split_ifs with hfaulted
  · exact ⟨rfl, rfl, rfl⟩
  generalize execute { cpu with printLength := length } ⟨cells, note'⟩ = left at hresult hcells ⊢
  generalize cpu.execute ⟨cells, note⟩ = right at hresult hcells ⊢
  obtain ⟨kind | ⟨instruction?, cpu'⟩, memory⟩ := right
  all_goals
    obtain ⟨result, memory'⟩ := left
    obtain rfl : result = _ := hresult
    exact ⟨rfl, hcells, rfl⟩

end Cpu

namespace Machine

/-- The machines differ in what they have noted at most. -/
structure Agrees (left right : Machine) : Prop where
  cells : left.memory.cells = right.memory.cells
  general : left.cpu.general = right.cpu.general
  sp : left.cpu.sp = right.cpu.sp
  ip : left.cpu.ip = right.cpu.ip
  zero : left.cpu.zero = right.cpu.zero
  carry : left.cpu.carry = right.cpu.carry
  faulted : left.cpu.faulted = right.cpu.faulted

variable {left right : Machine}

lemma Agrees.exists_eq (h : left.Agrees right) : ∃ note length steps,
    left = ⟨⟨right.memory.cells, note⟩, { right.cpu with printLength := length }, steps⟩ := by
  obtain ⟨⟨_, note⟩, ⟨_, _, _, _, _, _, length⟩, steps⟩ := left
  obtain ⟨rfl, rfl, rfl, rfl, rfl, rfl, rfl⟩ := h
  exact ⟨note, length, steps, rfl⟩

/-- The output is told from the cells above the stack pointer and from the length that the
instruction has just set. -/
lemma event_noting (cpu : Cpu) (length steps steps' : ℕ) (instruction : Instruction) :
    event ⟨⟨cells, note'⟩, cpu.noting length (some instruction), steps'⟩ instruction =
      event ⟨⟨cells, note⟩, cpu, steps⟩ instruction := by
  cases instruction <;> rfl

lemma agrees_noting (cpu : Cpu) (length steps steps' : ℕ) (instruction? : Option Instruction) :
    Agrees ⟨⟨cells, note'⟩, cpu.noting length instruction?, steps'⟩
      ⟨⟨cells, note⟩, cpu, steps⟩ := by
  unfold Cpu.noting
  split <;> exact ⟨rfl, rfl, rfl, rfl, rfl, rfl, rfl⟩

/-- One step of machines that agree. -/
theorem Agrees.step (h : left.Agrees right) :
    left.step.1 = right.step.1 ∧ left.step.2.Agrees right.step.2 := by
  obtain ⟨note, length, steps, rfl⟩ := h.exists_eq
  obtain ⟨hresult, hcells, hcpu⟩ := Cpu.step_noting right.memory.cells right.memory.lastAccess
    note right.cpu length
  unfold Machine.step
  dsimp only at hresult hcells hcpu ⊢
  generalize Cpu.step { right.cpu with printLength := length } ⟨right.memory.cells, note⟩ = after'
    at hresult hcells hcpu ⊢
  generalize right.cpu.step right.memory = after at hresult hcells hcpu ⊢
  obtain ⟨fault | _ | instruction, cpu, ⟨cells, note⟩⟩ := after
  all_goals
    obtain ⟨result', cpu', ⟨cells', note'⟩⟩ := after'
    obtain rfl : result' = _ := hresult
    obtain rfl : cells' = cells := hcells
    obtain rfl : cpu' = _ := hcpu
  · exact ⟨rfl, agrees_noting _ _ _ _ _ _ _ none⟩
  · exact ⟨rfl, agrees_noting _ _ _ _ _ _ _ none⟩
  · exact ⟨congrArg Except.ok (event_noting _ _ _ _ _ _ _ instruction),
      agrees_noting _ _ _ _ _ _ _ _⟩

end Machine

/-- Where one call keeps two states related and answers alike, so do many. -/
lemma calls_congr {σ ρ : Type} {step : σ → ρ × σ} {R : σ → σ → Prop}
    (hstep : ∀ a b, R a b → (step a).1 = (step b).1 ∧ R (step a).2 (step b).2) (n : ℕ) {a b : σ}
    (h : R a b) :
    (calls step n a).1 = (calls step n b).1 ∧ R (calls step n a).2 (calls step n b).2 := by
  induction n generalizing a b with
  | zero => exact ⟨rfl, h⟩
  | succ n ih =>
    obtain ⟨hresult, hnext⟩ := hstep a b h
    obtain ⟨hresults, hlast⟩ := ih hnext
    exact ⟨congrArg₂ List.cons hresult hresults, hlast⟩

/-- What a machine has noted never shows. Two machines with the same cells, registers, pointers,
flags and fault flag, whatever the cell each of them touched last, the length it printed last and
the steps it has counted, give the same answers however often they are stepped: the same events
with the same outputs, the same halts, and the same faults in the same places. In what they leave
they still differ in nothing else. -/
theorem notes_never_show {left right : Machine} (h : left.Agrees right) (n : ℕ) :
    (calls Machine.step n left).1 = (calls Machine.step n right).1 ∧
      (calls Machine.step n left).2.Agrees (calls Machine.step n right).2 :=
  calls_congr (fun _ _ => Machine.Agrees.step) n h

/-- A program prints a text and then decreases the stack pointer too far. A machine that starts it
with misleading notes answers just as a new one does. -/
theorem notes_never_show_sample :
    let machine := (Machine.load [14, 5, 6, 4, 240, 72, 105, 0]).2
    let misled : Machine := { machine with
      memory := { machine.memory with lastAccess := some 200 }
      cpu := { machine.cpu with printLength := 24 }
      steps := 1000 }
    misled.Agrees machine ∧
      (calls Machine.step 3 misled).1 =
        [.ok (.printed (.text "Hi")), .error ⟨.stackOverflow, 2⟩, .error ⟨.latched, 2⟩] := by
  intro machine misled
  have h : misled.Agrees machine := ⟨rfl, rfl, rfl, rfl, rfl, rfl, rfl⟩
  refine ⟨h, ?_⟩
  rw [(notes_never_show h 3).1]
  decide +kernel

end Octet
