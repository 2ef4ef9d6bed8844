import Octet.Proofs.Footprint

/-!
# Accounts of the registers

Each step adds an integer to each register, and mostly that is zero. Over any number of steps a
general register holds what it held at first and all that was added, modulo 256, and the stack
pointer holds it exactly. The flags tell of each result before it is brought into the range of a
byte.
-/
namespace Octet

open Results

/-! ### Results -/

/-- The evaluation of a result as it is found on words of 32 bits, one range after the other. The
remainder of a result of 256 and more is that of a division which rounds towards zero. -/
def Evaluation.ofWord (raw : Int32) : Evaluation :=
  if 256 ≤ raw then ⟨.ofInt (raw % 256).toInt, false, true⟩
  else if raw = 0 then ⟨0, true, false⟩
  else if raw < 0 then ⟨.ofInt (raw.toInt % 256), false, true⟩
  else ⟨.ofInt raw.toInt, false, false⟩

lemma toNat_ofInt (raw : ℤ) : ((UInt8.ofInt raw).toNat : ℤ) = raw % 256 := by
  have hlt : (raw % 256).toNat < 256 := by omega
  simp [UInt8.ofInt, Nat.mod_eq_of_lt hlt]
  omega

/-- A byte keeps the remainder of an integer. -/
lemma ofInt_congr {raw raw' : ℤ} (h : raw % 256 = raw' % 256) :
    UInt8.ofInt raw = UInt8.ofInt raw' := by
  have hleft := toNat_ofInt raw
  have hright := toNat_ofInt raw'
  exact UInt8.toNat_inj.mp (by omega)

theorem Evaluation.ofWord_eq (raw : Int32) : ofWord raw = ofInt raw.toInt := by
  have hwide : (256 : Int32).toInt = 256 := by decide
  have hzero : raw = 0 ↔ raw.toInt = 0 := by
    rw [← Int32.toInt_inj]
    simp
  unfold ofWord ofInt
  simp only [Int32.le_iff_toInt_le, Int32.lt_iff_toInt_lt, Int32.toInt_mod, hwide, hzero,
    Int32.toInt_zero]
  split_ifs with hhigh hnone hlow
  · have hvalue : UInt8.ofInt (raw.toInt.tmod 256) = UInt8.ofInt raw.toInt := by
      refine ofInt_congr ?_
      rw [Int.tmod_eq_emod_of_nonneg (by omega), Int.emod_emod_of_dvd _ (dvd_refl _)]
    simp [hvalue]
    omega
  · have hvalue : UInt8.ofInt 0 = 0 := by decide
    simp [hnone, hvalue]
  · have hvalue : UInt8.ofInt (raw.toInt % 256) = UInt8.ofInt raw.toInt :=
      ofInt_congr (Int.emod_emod_of_dvd _ (dvd_refl _))
    simp [hvalue, hlow, hnone]
  · simp [hnone]
    omega

/-! ### What is added -/

/-- The register that is looked at to set the flags, and what is added to it for that. A comparison
takes a difference and does not keep it. -/
def Instruction.evaluated? (state : State) : Instruction → Option (UInt8 × ℤ)
  | .compare register amount => some (register, -(amount.byte state).toNat)
  | instruction => instruction.addend? state

namespace State

/-- What the instruction at the instruction pointer adds to the register with this number. -/
def amount (state : State) (number : ℕ) : ℤ :=
  match state.instruction?.bind (·.addend? state) with
  | some (register, amount) => if register.toNat = number then amount else 0
  | none => 0

/-- The registers hold what they held before and what was added to each of them. -/
structure Adds (amount : ℕ → ℤ) (before after : State) : Prop where
  general : ∀ index : Fin 4, ((after.general index).toNat : ℤ) =
    ((before.general index).toNat + amount index) % 256
  sp : (after.sp : ℤ) = before.sp + amount 4

/-- The flags tell how an integer result lies to the range of a byte. -/
structure Tells (state : State) (raw : ℤ) : Prop where
  carry : state.carry = true ↔ ¬ (0 ≤ raw ∧ raw ≤ 255)
  zero : state.zero = true ↔ raw = 0

/-- What an instruction does to registers and flags. -/
structure Evaluates (instruction : Instruction) (before after : State) : Prop where
  flags : ∀ number amount, instruction.evaluated? before = some (number, amount) →
    ∃ held, before.register? number = some held ∧ after.Tells (held + amount)
  registers : instruction.addend? before = none →
    after.general = before.general ∧ after.sp = before.sp

variable {before after last : State} {number : UInt8} {amount : ℤ} {instruction : Instruction}

lemma Adds.refl (state : State) : state.Adds (fun _ => 0) state := by
  refine ⟨fun index => ?_, by simp⟩
  have hbyte := (state.general index).toNat_lt
  omega

/-- Accounts of steps in a row add up. -/
lemma Adds.trans {first rest : ℕ → ℤ} (h : before.Adds first after) (h' : after.Adds rest last) :
    before.Adds (fun number => first number + rest number) last := by
  refine ⟨fun index => ?_, ?_⟩
  · rw [h'.general, h.general, Int.emod_add_emod, add_assoc]
  · rw [h'.sp, h.sp, add_assoc]

lemma tells_setFlags (state : State) (raw : ℤ) : (state.setFlags raw).Tells raw := by
  constructor <;> simp [setFlags]
  omega

lemma adds_of_adjust (h : before.adjust number amount = .ok after) :
    before.Adds (fun other => if number.toNat = other then amount else 0) after := by
  cases adjusts_of_adjust h with
  | general slot result =>
    refine ⟨fun index => ?_, by simp [setFlags]; omega⟩
    by_cases heq : index = ⟨number.toNat, slot⟩
    · subst heq
      simp [toNat_ofInt, result]
    · have hother : number.toNat ≠ index.val := fun hsame => heq (Fin.ext hsame.symm)
      have hbyte := (before.general index).toNat_lt
      simp [Function.update_of_ne heq, hother]
      omega
  | stack slot result inside =>
    refine ⟨fun index => ?_, by simp [slot]; omega⟩
    have hother : number.toNat ≠ index.val := by omega
    have hbyte := (before.general index).toNat_lt
    simp [setFlags, hother]
    omega

lemma tells_of_adjust (h : before.adjust number amount = .ok after) :
    ∃ held : ℕ, before.register? number = some held ∧ after.Tells (held + amount) := by
  cases adjusts_of_adjust h with
  | @general raw slot result =>
    have htells := before.tells_setFlags raw
    subst result
    exact ⟨_, dif_pos slot, htells.carry, htells.zero⟩
  | @stack raw slot result inside =>
    have htells := before.tells_setFlags raw
    subst result
    exact ⟨before.sp, by simp [register?, slot], htells.carry, htells.zero⟩

lemma register?_ofNat (state : State) (index : Fin 4) :
    state.register? (UInt8.ofNat index) = some (state.general index).toNat := by
  have hlt : index.val < 256 := by omega
  simp [register?, Nat.mod_eq_of_lt hlt]

lemma eq_of_register? (h : ∀ number, after.register? number = before.register? number) :
    after.general = before.general ∧ after.sp = before.sp := by
  constructor
  · funext index
    have hindex := h (UInt8.ofNat index)
    rw [register?_ofNat, register?_ofNat, Option.some.injEq, UInt8.toNat_inj] at hindex
    exact hindex
  · exact Option.some.inj (h 4)

/-! ### Steps and runs -/

theorem Goes.evaluates (h : before.Goes instruction after) :
    before.Evaluates instruction after := by
  have hmeaning := h.meaning
  have hframe := Instruction.frame_of_meaning hmeaning
  refine ⟨fun number amount hevaluated => ?_, fun hnone => ?_⟩
  · cases instruction with
    | compare register value =>
      obtain ⟨rfl, rfl⟩ := by simpa [Instruction.evaluated?] using hevaluated
      dsimp only [Instruction.meaning] at hmeaning
      split at hmeaning
      · next held hheld =>
        cases hmeaning
        have htells := before.tells_setFlags (held + -(value.byte before).toNat)
        exact ⟨held, hheld, htells.carry, htells.zero⟩
      · cases hmeaning
    | add | subtract | increment | decrement =>
      simp only [Instruction.evaluated?] at hevaluated
      rw [Instruction.meaning_of_addend hevaluated] at hmeaning
      obtain ⟨adjusted, hadjusted, rfl⟩ := map_ok_iff.mp hmeaning
      obtain ⟨held, hheld, htells⟩ := tells_of_adjust hadjusted
      exact ⟨held, hheld, htells.carry, htells.zero⟩
    | copy | jump | printDecimal | printText =>
      simp [Instruction.evaluated?, Instruction.addend?] at hevaluated
  · exact eq_of_register? fun number => hframe.registers number (by simp [hnone])

/-- Each step adds its amounts. -/
theorem Moves.adds (h : before.Moves after) : before.Adds before.amount after := by
  cases h with
  | stays on =>
    have hnothing : before.amount = fun _ => 0 := by
      funext number
      simp [State.amount, instruction?_of_halt on]
    rw [hnothing]
    exact Adds.refl before
  | @goes instruction _ hgoes =>
    cases hadded : instruction.addend? before with
    | none =>
      have hnothing : before.amount = fun _ => 0 := by
        funext number
        simp [State.amount, hgoes.found, hadded]
      obtain ⟨hgeneral, hsp⟩ := hgoes.evaluates.registers hadded
      have hadds := Adds.refl before
      rw [hnothing]
      exact ⟨by simpa [hgeneral] using hadds.general, by simp [hsp]⟩
    | some addend =>
      obtain ⟨number, amount⟩ := addend
      have hamount : before.amount = fun other => if number.toNat = other then amount else 0 := by
        funext other
        simp [State.amount, hgoes.found, hadded]
      have hmeaning := hgoes.meaning
      rw [Instruction.meaning_of_addend hadded] at hmeaning
      obtain ⟨adjusted, hadjusted, rfl⟩ := map_ok_iff.mp hmeaning
      obtain ⟨hgeneral, hsp⟩ := adds_of_adjust hadjusted
      rw [hamount]
      exact ⟨hgeneral, hsp⟩

/-- Steps in a row add the sums of their amounts. -/
theorem adds_of_chain {path : List State} (h : Chain Moves before path last) :
    before.Adds (fun number => (path.map (·.amount number)).sum) last := by
  induction h with
  | none state => simpa using Adds.refl state
  | more step _ ih => simpa using step.adds.trans ih

end State

/-- Behind the last cell no step succeeds. -/
lemma Hardware.Succeeds.ip_lt {hardware left : Hardware} (h : Succeeds hardware left) :
    hardware.ip < 256 := by
  obtain ⟨running, h⟩ := h
  by_contra hlt
  have hexecute : execute.run hardware = .error (.ipOutOfBounds hardware.ip) hardware := by
    have hget : (get : Work Hardware).run hardware = .ok hardware hardware := rfl
    rw [execute, run_bind_ok hget]
    exact run_bind_error (run_require_of_not hlt _ _)
  unfold step at h
  split_ifs at h
  · simp at h
  · simp [hexecute] at h

/-- Arithmetic is exact over whole runs. What an evaluation keeps of a result is its remainder, and
its flags tell whether the result itself lies outside a byte and whether it is zero. A step that
carries an instruction out sets them so by its own result, and leaves the registers alone if it adds
nothing to them. After any number of steps that succeed, a general register holds what was in it and
all amounts that were added to it, modulo 256, each taken from memory as it was at that moment, and
so does the stack pointer without any reduction. It never leaves its range, which the step in place
has no other reason to stay in. -/
theorem registers_keep_account :
    (∀ raw : ℤ, let evaluation := Evaluation.ofInt raw
      (evaluation.value.toNat : ℤ) = raw % 256 ∧
      (evaluation.carry = true ↔ ¬ (0 ≤ raw ∧ raw ≤ 255)) ∧
      (evaluation.zero = true ↔ raw = 0)) ∧
    (∀ raw : Int32, Evaluation.ofWord raw = .ofInt raw.toInt) ∧
    (∀ (cpu cpu' : Cpu) (memory memory' : Memory) (instruction : Instruction),
      cpu.step memory = (.ok (some instruction), cpu', memory') →
        let before := State.of cpu memory
        let after := State.of cpu' memory'
        before.Goes instruction after ∧ before.Evaluates instruction after) ∧
    (∀ (start last : Cpu × Memory) (path : List (Cpu × Memory)),
      Chain Cpu.Succeeds start path last →
        (State.of start.1 start.2).Adds
          (fun number =>
            (path.map fun visited => (State.of visited.1 visited.2).amount number).sum)
          (State.of last.1 last.2)) ∧
    (∀ hardware left : Hardware, hardware.InRange → hardware.step = (.ok true, left) →
      ∃ instruction, hardware.state.Goes instruction left.state ∧
        hardware.state.Evaluates instruction left.state) ∧
    (∀ (hardware left : Hardware) (path : List Hardware), hardware.sp.toNat ≤ 231 →
      (∀ address, hardware.lastAccess = some address → address < 256) →
      Chain Hardware.Succeeds hardware path left →
        hardware.state.Adds
          (fun number => (path.map fun visited => visited.state.amount number).sum) left.state ∧
        ∀ visited ∈ left :: path, visited.sp.toNat ≤ 231) := by
  refine ⟨fun raw => ⟨toNat_ofInt raw, ?_, ?_⟩, Evaluation.ofWord_eq,
    fun cpu cpu' memory memory' instruction h => ?_, fun start last path h => ?_,
    fun hardware left hrange h => ?_, fun hardware left path hsp hnote h => ?_⟩
  · simp [Evaluation.ofInt]
    omega
  · simp [Evaluation.ofInt]
  · have hgoes := (Cpu.goes_of_step h).1
    exact ⟨hgoes, hgoes.evaluates⟩
  · simpa [Function.comp_def] using State.adds_of_chain (Cpu.chain_moves h)
  · obtain ⟨-, instruction, hgoes⟩ := Hardware.goes_of_step hrange h
    exact ⟨instruction, hgoes, hgoes.evaluates⟩
  · by_cases hip : hardware.ip ≤ 256
    · obtain ⟨hvisited, hmoves⟩ := Hardware.chain_moves h ⟨hsp, hip, hnote⟩
      have hadds := State.adds_of_chain hmoves
      refine ⟨by simpa [Function.comp_def] using hadds, ?_⟩
      intro visited hmem
      exact (hvisited visited hmem).sp
    · cases h with
      | none => exact ⟨by simpa using State.Adds.refl _, by simpa using hsp⟩
      | more hstep =>
        have hlt := hstep.ip_lt
        omega

/-- Twice 200 is 144 in a general register, and the stack pointer is one less than at first. -/
theorem registers_keep_account_sample :
    let machine := (Machine.load [4, 0, 200, 4, 0, 200, 8, 4]).2
    let start := (machine.cpu, machine.memory)
    let first := (start.1.step start.2).2
    let second := (first.1.step first.2).2
    let last := (second.1.step second.2).2
    Chain Cpu.Succeeds start [start, first, second] last ∧
      (((State.of last.1 last.2).general 0).toNat : ℤ) = (0 + (200 + 200)) % 256 ∧
      ((State.of last.1 last.2).sp : ℤ) = 231 + (-1) := by
  intro machine start first second last
  have hfirst : (start.1.step start.2).1 = .ok (some (.add 0 (.literal 200))) := by decide +kernel
  have hsecond : (first.1.step first.2).1 = .ok (some (.add 0 (.literal 200))) := by
    decide +kernel
  have hlast : (second.1.step second.2).1 = .ok (some (.decrement 4)) := by decide +kernel
  have hchain : Chain Cpu.Succeeds start [start, first, second] last :=
    .more (@Cpu.succeeds_of_ok start _ hfirst) (.more (@Cpu.succeeds_of_ok first _ hsecond)
      (.more (@Cpu.succeeds_of_ok second _ hlast) (.none last)))
  obtain ⟨hgeneral, hsp⟩ := registers_keep_account.2.2.2.1 _ _ _ hchain
  refine ⟨hchain, (hgeneral 0).trans ?_, hsp.trans ?_⟩
  · decide +kernel
  · decide +kernel

end Octet
