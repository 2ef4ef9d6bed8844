import Octet.Proofs.Faults

/-!
# What a program sees of a step

A step that succeeds carries the instruction at the instruction pointer out, or stays on the halt
marker. The instruction is the one that stands in memory before the step. The processor and the step
in place look the same in this, and so whatever holds of the moves of a state holds of both, and of
steps in a row.
-/
namespace Octet

open Results

/-! ### States -/

/-- Bytes of the whole instruction, the opcode included. -/
def Instruction.width : Instruction → ℕ
  | .copy _ _ | .add _ _ | .subtract _ _ | .compare _ _ => 3
  | .increment _ | .decrement _ | .jump _ _ | .printDecimal _ | .printText _ => 2

lemma Instruction.width_of_decode {op : Opcode} {a b : UInt8} {instruction : Instruction}
    (h : decode? op a b = some instruction) : op.width = instruction.width := by
  cases op <;> simp [decode?] at h <;> subst h <;> rfl

namespace State

/-- The byte at an address, and 0 outside memory. -/
def byteAt (state : State) (address : ℕ) : UInt8 :=
  if h : address < 256 then state.cells ⟨address, h⟩ else 0

/-- The instruction that starts at the instruction pointer. There is none on the halt marker and on
bytes that are no opcode. -/
def instruction? (state : State) : Option Instruction :=
  (Opcode.ofByte? (state.byteAt state.ip)).bind fun op =>
    Instruction.decode? op (state.byteAt (state.ip + 1)) (state.byteAt (state.ip + 2))

/-- The instruction at the instruction pointer lies in memory as a whole. -/
structure Fetches (state : State) (instruction : Instruction) : Prop where
  found : state.instruction? = some instruction
  fits : state.ip + instruction.width ≤ 256

/-- The instruction at the instruction pointer is carried out. -/
structure Goes (state : State) (instruction : Instruction) (next : State) : Prop
    extends Fetches state instruction where
  meaning : instruction.meaning (state.ip + instruction.width) state = .ok next

/-- What a program sees of a step that succeeds. -/
inductive Moves (state : State) : State → Prop
  | stays (on : state.byteAt state.ip = Opcode.halt.toByte) : Moves state state
  | goes {instruction : Instruction} {next : State} (h : state.Goes instruction next) :
      Moves state next

lemma instruction?_of_halt {state : State} (on : state.byteAt state.ip = Opcode.halt.toByte) :
    state.instruction? = none := by
  simp [instruction?, on, Instruction.decode?]

end State

/-- One move after the other, and the states in front of them. -/
inductive Chain {σ : Type} (move : σ → σ → Prop) : σ → List σ → σ → Prop
  | none (state : σ) : Chain move state [] state
  | more {state next last : σ} {path : List σ} (step : move state next)
      (rest : Chain move next path last) : Chain move state (state :: path) last

/-- What every move keeps up is kept up. -/
lemma Chain.keeps {σ : Type} {move : σ → σ → Prop} {P : σ → Prop}
    (hmove : ∀ state next, P state → move state next → P next) {state last : σ} {path : List σ}
    (hchain : Chain move state path last) (h : P state) : P last := by
  induction hchain with
  | none => exact h
  | more step _ ih => exact ih (hmove _ _ h step)

/-- A chain of moves is seen as a chain of what is seen of them, and what every move keeps up is
kept up. -/
lemma Chain.map {σ τ : Type} {move : σ → σ → Prop} {move' : τ → τ → Prop} {P : σ → Prop}
    {f : σ → τ} (hmove : ∀ state next, P state → move state next →
      P next ∧ move' (f state) (f next))
    {state last : σ} {path : List σ} (hchain : Chain move state path last) (h : P state) :
    (∀ visited ∈ last :: path, P visited) ∧ Chain move' (f state) (path.map f) (f last) := by
  induction hchain with
  | none state => exact ⟨by simpa using h, .none _⟩
  | more step _ ih =>
    obtain ⟨hnext, hseen⟩ := hmove _ _ h step
    obtain ⟨hvisited, hrest⟩ := ih hnext
    refine ⟨?_, .more hseen hrest⟩
    simp only [List.forall_mem_cons] at hvisited ⊢
    exact ⟨hvisited.1, h, hvisited.2⟩

/-! ### Steps of the processor -/

namespace Cpu

variable {cpu cpu' : Cpu} {memory memory' : Memory} {instruction : Instruction}

/-- A step of the processor succeeds. -/
def Succeeds (state next : Cpu × Memory) : Prop :=
  ∃ instruction?, state.1.step state.2 = (.ok instruction?, next)

lemma succeeds_of_ok {state : Cpu × Memory} {instruction? : Option Instruction}
    (h : (state.1.step state.2).1 = .ok instruction?) : Succeeds state (state.1.step state.2).2 :=
  ⟨instruction?, Prod.ext h rfl⟩

lemma byteAt_of (cpu : Cpu) (memory : Memory) (address : ℕ) :
    (State.of cpu memory).byteAt address = memory.byteAt address := by
  unfold State.byteAt
  split
  · next h => exact (memory.byteAt_of_lt h).symm
  · next h => simp [Memory.byteAt, h]

lemma fetches_of_iff : (State.of cpu memory).Fetches instruction ↔
    cpu.Fetches memory instruction := by
  have hip : (State.of cpu memory).ip = cpu.ip.val := rfl
  have hfound : (State.of cpu memory).instruction? = some instruction ↔
      ∃ op : Opcode, memory.byteAt cpu.ip = op.toByte ∧ Instruction.decode? op
        (memory.byteAt (cpu.ip + 1)) (memory.byteAt (cpu.ip + 2)) = some instruction := by
    simp [State.instruction?, byteAt_of, hip, Option.bind_eq_some_iff, Opcode.ofByte?_eq_some_iff]
  constructor
  · rintro ⟨found, fits⟩
    obtain ⟨op, hbyte, hdecode⟩ := hfound.mp found
    rw [← Instruction.width_of_decode hdecode] at fits
    exact ⟨op, hbyte, fits, hdecode⟩
  · rintro ⟨op, hbyte, fits, hdecode⟩
    rw [Instruction.width_of_decode hdecode] at fits
    exact ⟨hfound.mpr ⟨op, hbyte, hdecode⟩, fits⟩

lemma Fetches.carriesOut (h : cpu.Fetches memory instruction) (hrunning : cpu.faulted = false) :
    cpu.CarriesOut memory instruction
      (instruction.meaning (cpu.ip + instruction.width) (State.of cpu memory)) := by
  obtain ⟨op, hbyte, hfits, hdecode⟩ := h
  rw [← Instruction.width_of_decode hdecode]
  exact carriesOut_of_decode hrunning hbyte hfits hdecode

/-- What is carried out has been fetched. -/
lemma Execution.fetches {result : Except FaultKind (Option Instruction × Cpu) × Memory}
    (h : cpu.Execution memory result) (hok : result.1 = .ok (some instruction, cpu')) :
    cpu.Fetches memory instruction := by
  cases h with
  | outside | invalid | overrun | halt => simp at hok
  | @carryOut _ _ op opcode next behind found decoded =>
    obtain ⟨_, _, heq⟩ := map_ok_iff.mp hok
    obtain ⟨rfl, -⟩ := by simpa using heq
    exact ⟨op, opcode, by omega, decoded⟩

/-- A step that succeeds has executed what the processor fetched. -/
lemma execute_of_step {instruction? : Option Instruction}
    (h : cpu.step memory = (.ok instruction?, cpu', memory')) :
    cpu.faulted = false ∧ cpu.execute memory = (.ok (instruction?, cpu'), memory') := by
  unfold step at h
  split_ifs at h with hfaulted
  · simp at h
  · rcases hresult : cpu.execute memory with ⟨kind | ⟨answer, left⟩, left'⟩
    all_goals
      rw [hresult] at h
      simp at h
    obtain ⟨rfl, rfl, rfl⟩ := h
    exact ⟨by simpa using hfaulted, rfl⟩

/-- What a step has carried out was fetched from memory as it was before, and what it leaves is what
the instruction means. -/
theorem goes_of_step (h : cpu.step memory = (.ok (some instruction), cpu', memory')) :
    (State.of cpu memory).Goes instruction (State.of cpu' memory') ∧ cpu'.faulted = false := by
  obtain ⟨hrunning, hresult⟩ := execute_of_step h
  have hexecution := cpu.execution memory
  rw [hresult] at hexecution
  have hfetches := hexecution.fetches rfl
  have hcarries := hfetches.carriesOut hrunning
  cases hmeaning : instruction.meaning (cpu.ip + instruction.width) (State.of cpu memory) with
  | error kind =>
    rw [hmeaning] at hcarries
    obtain ⟨_, _, hstep, -⟩ := hcarries
    simp [h] at hstep
  | ok next =>
    rw [hmeaning] at hcarries
    obtain ⟨_, _, hstep, hnext, hstill⟩ := hcarries
    rw [h] at hstep
    obtain ⟨rfl, rfl⟩ := by simpa using hstep
    rw [← hnext] at hmeaning
    exact ⟨⟨fetches_of_iff.mpr hfetches, hmeaning⟩, hstill⟩

/-- Whatever can be carried out is carried out. -/
theorem step_of_goes {next : State} (hrunning : cpu.faulted = false)
    (h : (State.of cpu memory).Goes instruction next) : ∃ cpu' memory',
      cpu.step memory = (.ok (some instruction), cpu', memory') ∧ State.of cpu' memory' = next ∧
        cpu'.faulted = false := by
  have hcarries := (fetches_of_iff.mp h.toFetches).carriesOut hrunning
  have hmeaning : instruction.meaning (cpu.ip + instruction.width) (State.of cpu memory) =
    .ok next := h.meaning
  rwa [hmeaning] at hcarries

/-- Without an instruction to carry out, only the note of the last access may move. -/
theorem stays_of_step (h : cpu.step memory = (.ok none, cpu', memory')) :
    cpu' = cpu ∧ memory'.cells = memory.cells ∧
      (State.of cpu memory).byteAt cpu.ip = Opcode.halt.toByte ∧ cpu.faulted = false := by
  obtain ⟨hrunning, hresult⟩ := execute_of_step h
  have hexecution := cpu.execution memory
  rw [hresult] at hexecution
  obtain ⟨hcpu, hcells, on⟩ := hexecution.of_none rfl
  rw [byteAt_of]
  exact ⟨hcpu, hcells, (getElem?_eq_some_iff_byteAt.mp on).2, hrunning⟩

theorem Succeeds.moves {state next : Cpu × Memory} (h : Succeeds state next) :
    (State.of state.1 state.2).Moves (State.of next.1 next.2) := by
  obtain ⟨instruction?, h⟩ := h
  cases instruction? with
  | none =>
    obtain ⟨hcpu, hcells, on, -⟩ := stays_of_step h
    rw [hcpu, State.of_congr hcells]
    exact .stays on
  | some instruction => exact .goes (goes_of_step h).1

/-- Behind a step that succeeds no fault is latched. -/
lemma Succeeds.running {state next : Cpu × Memory} (h : Succeeds state next) :
    next.1.faulted = false := by
  obtain ⟨instruction?, h⟩ := h
  cases instruction? with
  | none =>
    obtain ⟨hcpu, -, -, hrunning⟩ := stays_of_step h
    rw [hcpu, hrunning]
  | some instruction => exact (goes_of_step h).2

theorem chain_moves {state last : Cpu × Memory} {path : List (Cpu × Memory)}
    (h : Chain Succeeds state path last) : Chain State.Moves (State.of state.1 state.2)
      (path.map fun visited => State.of visited.1 visited.2) (State.of last.1 last.2) :=
  (h.map (P := fun _ => True) (f := fun visited : Cpu × Memory => State.of visited.1 visited.2)
    (fun _ _ _ hstep => ⟨trivial, hstep.moves⟩) trivial).2

end Cpu

/-! ### Steps in place -/

namespace Hardware

variable {hardware left : Hardware}

/-- What a program sees of plain numbers. -/
def state (hardware : Hardware) : State where
  cells := hardware.cells.get
  general := hardware.general.get
  sp := hardware.sp.toNat
  ip := hardware.ip
  zero := hardware.zero
  carry := hardware.carry
  printLength := hardware.printLength

lemma state_of (cpu : Cpu) (memory : Memory) : (of cpu memory).state = State.of cpu memory := by
  have hsp := toNat_sp cpu.sp
  exact State.ext rfl rfl hsp rfl rfl rfl rfl

/-- A step in place succeeds. -/
def Succeeds (hardware next : Hardware) : Prop := ∃ running, hardware.step = (.ok running, next)

/-- In range, a step in place succeeds where the processor takes one. -/
lemma exists_cpu_of_step (hrange : hardware.InRange) {running : Bool}
    (h : hardware.step = (.ok running, left)) : ∃ cpu memory instruction? cpu' memory',
      hardware = of cpu memory ∧ left = of cpu' memory' ∧ running = instruction?.isSome ∧
        cpu.step memory = (.ok instruction?, cpu', memory') := by
  obtain ⟨cpu, memory, rfl⟩ := inRange_iff.mp hrange
  rw [step_of] at h
  rcases hstep : cpu.step memory with ⟨fault | instruction?, cpu', memory'⟩
  all_goals
    rw [hstep] at h
    simp [Except.map] at h
  exact ⟨cpu, memory, instruction?, cpu', memory', rfl, h.2.symm, h.1.symm, hstep⟩

/-- What a step in place has carried out was in memory before. -/
theorem goes_of_step (hrange : hardware.InRange) (h : hardware.step = (.ok true, left)) :
    left.faulted = false ∧ ∃ instruction, hardware.state.Goes instruction left.state := by
  obtain ⟨cpu, memory, instruction?, cpu', memory', rfl, rfl, hrunning, hstep⟩ :=
    exists_cpu_of_step hrange h
  obtain ⟨instruction, rfl⟩ := Option.isSome_iff_exists.mp hrunning.symm
  obtain ⟨hgoes, hstill⟩ := Cpu.goes_of_step hstep
  rw [state_of, state_of]
  exact ⟨hstill, instruction, hgoes⟩

/-- Whatever can be carried out is carried out in place. -/
theorem step_of_goes {instruction : Instruction} {next : State} (hrange : hardware.InRange)
    (hrunning : hardware.faulted = false) (h : hardware.state.Goes instruction next) :
    ∃ left : Hardware, hardware.step = (.ok true, left) ∧ left.state = next ∧ left.InRange ∧
      left.faulted = false := by
  obtain ⟨cpu, memory, rfl⟩ := inRange_iff.mp hrange
  rw [state_of] at h
  obtain ⟨cpu', memory', hstep, hnext, hstill⟩ := Cpu.step_of_goes hrunning h
  refine ⟨of cpu' memory', ?_, (state_of _ _).trans hnext, inRange_iff.mpr ⟨_, _, rfl⟩, hstill⟩
  rw [step_of, hstep]
  rfl

/-- Behind a step in place that succeeds no fault is latched. -/
lemma Succeeds.running (h : Succeeds hardware left) (hrange : hardware.InRange) :
    left.faulted = false := by
  obtain ⟨running, hstep⟩ := h
  obtain ⟨cpu, memory, instruction?, cpu', memory', rfl, rfl, -, hcpu⟩ :=
    exists_cpu_of_step hrange hstep
  have hsucceeds : Cpu.Succeeds (cpu, memory) (cpu', memory') := ⟨instruction?, hcpu⟩
  exact hsucceeds.running

theorem Succeeds.moves (h : Succeeds hardware left) (hrange : hardware.InRange) :
    left.InRange ∧ hardware.state.Moves left.state := by
  obtain ⟨running, hstep⟩ := h
  obtain ⟨cpu, memory, instruction?, cpu', memory', rfl, rfl, -, hcpu⟩ :=
    exists_cpu_of_step hrange hstep
  have hmoves : Cpu.Succeeds (cpu, memory) (cpu', memory') := ⟨instruction?, hcpu⟩
  rw [state_of, state_of]
  exact ⟨inRange_iff.mpr ⟨_, _, rfl⟩, hmoves.moves⟩

theorem chain_moves {path : List Hardware} (h : Chain Succeeds hardware path left)
    (hrange : hardware.InRange) : (∀ visited ∈ left :: path, visited.InRange) ∧
      Chain State.Moves hardware.state (path.map state) left.state :=
  h.map (fun _ _ hrange hstep => hstep.moves hrange) hrange

end Hardware

end Octet
