import Octet.Proofs.InPlace
import Octet.Proofs.Reachable

/-!
# What holds of every machine

Pointers are in range, the two flags are never set at once, and what was printed last fits above the
stack pointer. A step keeps this up whatever the cells hold, and so it holds of all that can come of
a new machine. The halt marker is then the only place where a step halts, and a step there always
halts.
-/
namespace Octet

open Results

variable {cpu cpu' : Cpu} {memory : Memory}

/-! ### Flags and prints -/

lemma Evaluation.not_zero_and_carry (raw : ℤ) :
    ¬ ((ofInt raw).zero = true ∧ (ofInt raw).carry = true) := by
  simp only [ofInt, beq_iff_eq, Bool.or_eq_true, decide_eq_true_eq]
  omega

/-- The flags come of a result, and the last print of a print instruction. -/
structure Cpu.Tidy (cpu : Cpu) : Prop where
  flags : ¬ (cpu.zero = true ∧ cpu.carry = true)
  printLength : cpu.printLength ≤ 24

namespace Cpu

lemma tidy_initial : initial.Tidy := ⟨by decide, by decide⟩

/-- Every instruction that is carried out leaves the processor tidy. -/
lemma Tidy.of_performed (h : cpu.Tidy) (hperformed : cpu.Performed cpu') : cpu'.Tidy := by
  cases hperformed with
  | went => exact ⟨h.flags, h.printLength⟩
  | evaluated raw => exact ⟨Evaluation.not_zero_and_carry raw, h.printLength⟩
  | printed short => exact ⟨h.flags, short⟩

lemma Execution.tidy {result : Except FaultKind (Option Instruction × Cpu) × Memory}
    (hexecution : cpu.Execution memory result) (h : cpu.Tidy) {instruction? : Option Instruction}
    (hok : result.1 = .ok (instruction?, cpu')) : cpu'.Tidy := by
  cases hexecution with
  | outside | invalid | overrun => cases hok
  | halt =>
    cases hok
    exact h
  | carryOut =>
    obtain ⟨performed, hperformed, heq⟩ := map_ok_iff.mp hok
    cases heq
    exact h.of_performed (performed_of_perform hperformed)

theorem Tidy.step (h : cpu.Tidy) (memory : Memory) : (cpu.step memory).2.1.Tidy := by
  have hexecution := cpu.execution memory
  unfold Cpu.step
  by_cases hfaulted : cpu.faulted
  · rw [if_pos hfaulted]
    exact h
  · rw [if_neg hfaulted]
    rcases hresult : cpu.execute memory with ⟨kind | ⟨instruction?, cpu'⟩, memory'⟩
    · exact ⟨h.flags, h.printLength⟩
    · rw [hresult] at hexecution
      exact hexecution.tidy h rfl

end Cpu

/-! ### Sound hardware -/

namespace Hardware

variable {hardware : Hardware}

/-- The next fetch finds the halt marker. -/
def AtHalt (hardware : Hardware) : Prop := hardware.cells[hardware.ip]? = some 0

/-- What holds of the plain numbers at all times. -/
structure Sound (hardware : Hardware) : Prop extends InRange hardware where
  flags : ¬ (hardware.zero = true ∧ hardware.carry = true)
  printLength : hardware.printLength ≤ 24
  /-- A fault is found behind the last cell or at a cell that is not the halt marker. -/
  faulted : hardware.faulted = true →
    hardware.ip = 256 ∨ ∃ byte, hardware.cells[hardware.ip]? = some byte ∧ byte ≠ 0

/-- The range that the last print has filled is neither cut short by the end of memory nor turned
around. -/
lemma Sound.output_le (h : hardware.Sound) :
    hardware.sp.toNat + 1 + hardware.printLength ≤ 256 := by
  have hsp := h.sp
  have hlength := h.printLength
  omega

/-- The processor and the memory of a machine as plain numbers. -/
def ofMachine (machine : Machine) : Hardware := of machine.cpu machine.memory

lemma ofMachine_step (machine : Machine) :
    (ofMachine machine).step.2 = ofMachine machine.step.2 := by
  rw [ofMachine, step_of, ofMachine, Machine.step]
  rcases machine.cpu.step machine.memory with ⟨fault | _ | instruction, cpu, memory⟩ <;> rfl

/-- A machine that is tidy and not stuck on the halt marker is sound, and the other way round. -/
theorem sound_ofMachine_iff {machine : Machine} :
    (ofMachine machine).Sound ↔ machine.cpu.Tidy ∧ machine.LatchedOffHalt := by
  have hcell (hip : machine.cpu.ip.val < 256) : machine.memory.cells[machine.cpu.ip.val]? =
      some machine.memory.cells[machine.cpu.ip.val] := Vector.getElem?_eq_getElem hip
  have hle : machine.cpu.ip.val ≤ 256 := Nat.le_of_lt_succ machine.cpu.ip.isLt
  constructor
  · intro h
    refine ⟨⟨h.flags, h.printLength⟩, fun hfaulted on => ?_⟩
    obtain ⟨hinside, -⟩ := Cpu.getElem?_eq_some_iff_byteAt.mp on
    obtain hip | ⟨byte, hbyte, hne⟩ := h.faulted hfaulted
    · have hip' : machine.cpu.ip.val = 256 := hip
      omega
    · exact hne (Option.some.inj (hbyte.symm.trans on))
  · intro ⟨htidy, hoff⟩
    have hrange : (ofMachine machine).InRange := inRange_iff.mpr ⟨_, _, rfl⟩
    refine ⟨hrange, htidy.flags, htidy.printLength, fun hfaulted => ?_⟩
    by_cases hip : machine.cpu.ip.val = 256
    · exact .inl hip
    · refine .inr ⟨_, hcell (by omega), fun hzero => hoff hfaulted ?_⟩
      exact (hcell (by omega)).trans (congrArg some hzero)

/-- Put every number back to where it starts. -/
def reset (hardware : Hardware) : Hardware :=
  { hardware with
    cells := Vector.replicate 256 0
    lastAccess := none
    general := Vector.replicate 4 0
    sp := 231
    ip := 0
    zero := false
    carry := false
    faulted := false
    printLength := 0 }

/-- Reset everything, then put an image into the first cells, if there is room for it. -/
def reload (hardware : Hardware) (image : List UInt8) : Hardware :=
  let hardware := hardware.reset
  if image.length ≤ 256 then
    { hardware with cells := Vector.ofFn fun a => (image[a.val]?).getD (hardware.cells.get a) }
  else hardware

lemma reset_eq (hardware : Hardware) : hardware.reset = ofMachine .initial := rfl

/-- The hardware that an image is loaded into comes out like a new machine with the image. -/
lemma reload_eq (hardware : Hardware) (image : List UInt8) :
    hardware.reload image = ofMachine (Machine.load image).2 := by
  unfold reload Machine.load Machine.reload Memory.loadImage
  split_ifs
  · rfl
  · rfl

/-- What can come of new hardware by resetting it, loading an image into it, well or ill, and taking
steps. A run is steps in a row. -/
inductive Reachable : Hardware → Prop
  | initial : Reachable (ofMachine .initial)
  | reset {hardware : Hardware} (h : Reachable hardware) : Reachable hardware.reset
  | reload {hardware : Hardware} (h : Reachable hardware) (image : List UInt8) :
      Reachable (hardware.reload image)
  | step {hardware : Hardware} (h : Reachable hardware) : Reachable hardware.step.2

lemma Reachable.exists_machine (h : hardware.Reachable) :
    ∃ machine : Machine, machine.Reachable ∧ hardware = ofMachine machine := by
  induction h with
  | initial => exact ⟨_, .initial, rfl⟩
  | reset => exact ⟨_, .initial, reset_eq _⟩
  | reload _ image => exact ⟨_, .load image, reload_eq _ image⟩
  | step _ ih =>
    obtain ⟨machine, hmachine, rfl⟩ := ih
    exact ⟨machine.step.2, hmachine.step, ofMachine_step machine⟩

end Hardware

/-! ### Machines -/

namespace Machine

variable {machine : Machine}

theorem Reachable.tidy (h : machine.Reachable) : machine.cpu.Tidy := by
  apply h.invariant (P := fun machine => machine.cpu.Tidy)
  · exact Cpu.tidy_initial
  · intro image
    rw [cpu_load]
    exact Cpu.tidy_initial
  · intro machine htidy
    have hstep := htidy.step machine.memory
    unfold Machine.step
    rcases hresult : machine.cpu.step machine.memory with ⟨fault | _ | instruction, cpu, memory⟩
    all_goals
      rw [hresult] at hstep
      exact hstep

lemma Reachable.ofMachine (h : machine.Reachable) : (Hardware.ofMachine machine).Reachable := by
  apply h.invariant (P := fun machine => (Hardware.ofMachine machine).Reachable)
  · exact .initial
  · intro image
    rw [← Hardware.reload_eq (.ofMachine .initial)]
    exact .reload .initial image
  · intro machine hmachine
    rw [← Hardware.ofMachine_step]
    exact hmachine.step

/-- A machine halts exactly when it stands on the halt marker, unless it is stuck there. -/
lemma LatchedOffHalt.atHalt_iff (h : machine.LatchedOffHalt) :
    machine.AtHalt ↔ machine.step.1 = .ok .halted := by
  have houtcome := machine.outcome
  generalize machine.step = result at houtcome ⊢
  cases houtcome with
  | latched faulted => exact iff_of_false (h faulted) nofun
  | fault running off => exact iff_of_false off nofun
  | halted running on => exact iff_of_true on rfl
  | stepped running off ne_halted =>
    exact iff_of_false off fun heq => ne_halted (Except.ok.inj heq)

/-- What is read back is as long as what was printed. -/
lemma length_output (h : machine.cpu.Tidy) : machine.output.length = machine.cpu.printLength := by
  have hsp := machine.cpu.sp.isLt
  have hlength := h.printLength
  have haddress : machine.cpu.outputAddress.val = machine.cpu.sp.val + 1 := rfl
  rw [output, Memory.length_slice]
  omega

/-- All that an observer sees in a run has what a step keeps up. -/
lemma runFor_observed {P : Machine → Prop} (hstep : ∀ machine, P machine → P machine.step.2)
    (limit remaining : ℕ) (h : P machine) : ∀ next ∈
      (runFor limit (fun seen next _ => next :: seen) remaining [] machine).observed, P next := by
  have hseen := List.forall_mem_nil P
  revert h hseen
  apply runFor_induction (Q := fun seen machine run =>
    P machine → (∀ next ∈ seen, P next) → ∀ next ∈ run.observed, P next)
  · exact fun _ _ _ hseen => hseen
  · exact fun _ _ _ _ _ _ hseen => hseen
  · intro seen machine event next heq h hseen
    exact List.forall_mem_cons.mpr ⟨of_step_eq hstep heq h, hseen⟩
  · intro seen machine event next run heq ih h hseen
    have hnext := of_step_eq hstep heq h
    exact ih hnext (List.forall_mem_cons.mpr ⟨hnext, hseen⟩)

/-- All that can come of new hardware is sound, and it is on the halt marker exactly when its next
step halts. Machines are such hardware, whatever operations they come of, and so are the machines
that an observer sees during a run. What such a machine reads back is all that was printed. -/
theorem reachable_sound :
    (∀ hardware : Hardware, hardware.Reachable →
      hardware.Sound ∧ hardware.sp.toNat + 1 + hardware.printLength ≤ 256 ∧
        (hardware.AtHalt ↔ hardware.step.1 = .ok false)) ∧
    ∀ machine : Machine, machine.Reachable →
      (Hardware.ofMachine machine).Reachable ∧
      machine.output.length = machine.cpu.printLength ∧
      (machine.AtHalt ↔ machine.step.1 = .ok .halted) ∧
      ∀ limit, ∀ seen ∈ (machine.runWith limit (fun seen next _ => next :: seen) []).observed,
        seen.Reachable := by
  refine ⟨fun hardware h => ?_, fun machine h => ?_⟩
  · obtain ⟨machine, hmachine, rfl⟩ := h.exists_machine
    have hoff := hmachine.latchedOffHalt
    have hsound := Hardware.sound_ofMachine_iff.mpr ⟨hmachine.tidy, hoff⟩
    have hhalted : (Hardware.ofMachine machine).step.1 = .ok false ↔
        machine.step.1 = .ok .halted := by
      rw [Hardware.ofMachine, Hardware.step_of, step]
      rcases machine.cpu.step machine.memory with ⟨fault | _ | instruction, cpu, memory⟩
      · exact iff_of_false nofun nofun
      · exact iff_of_true rfl rfl
      · refine iff_of_false nofun fun heq => ?_
        exact event_ne_halted _ _ (Except.ok.inj heq)
    exact ⟨hsound, hsound.output_le, hoff.atHalt_iff.trans hhalted.symm⟩
  · refine ⟨h.ofMachine, length_output h.tidy, h.latchedOffHalt.atHalt_iff, fun limit => ?_⟩
    exact runFor_observed (fun _ hnext => hnext.step) limit _ h

/-- The stack pointer of a new processor cannot be increased. The fault leaves sound hardware, and
the machine is not at the halt marker then. -/
theorem reachable_sound_sample :
    (Hardware.ofMachine (load [7, 4]).2.step.2).Sound ∧
      (Hardware.ofMachine (load [7, 4]).2.step.2).faulted = true ∧
      ¬ (load [7, 4]).2.step.2.AtHalt := by
  have hmachine : (load [7, 4]).2.step.2.Reachable := .step (.load [7, 4])
  obtain ⟨hhardware, -, hhalt, -⟩ := reachable_sound.2 _ hmachine
  refine ⟨(reachable_sound.1 _ hhardware).1, by decide +kernel, ?_⟩
  rw [hhalt]
  decide +kernel

end Machine

end Octet
