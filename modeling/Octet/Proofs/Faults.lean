import Octet.Proofs.InPlace
import Octet.Proofs.Reachable

/-!
# Faults

When a step fails, with what, and what it leaves. The conditions are told from the bytes at the
instruction pointer, from the registers and from the cells that a text instruction would print. A
step that fails is taken back but for the fault flag, and from then on nothing happens until a
reset.
-/
namespace Octet

open Results

variable {cpu cpu' : Cpu} {memory memory' : Memory}

/-! ### Conditions -/

/-- The bytes at the instruction pointer are a whole instruction. -/
def Cpu.Fetches (cpu : Cpu) (memory : Memory) (instruction : Instruction) : Prop :=
  ∃ op : Opcode, memory.byteAt cpu.ip = op.toByte ∧ cpu.ip + op.width ≤ 256 ∧
    Instruction.decode? op (memory.byteAt (cpu.ip + 1)) (memory.byteAt (cpu.ip + 2)) =
      some instruction

/-- The byte that names a register. -/
def Instruction.register? : Instruction → Option UInt8
  | .add register _ | .subtract register _ | .increment register | .decrement register
  | .compare register _ => some register
  | _ => none

/-- What an instruction adds to its register, as an integer. -/
def Instruction.change? (memory : Memory) : Instruction → Option ℤ
  | .add _ amount => some (memory.fetch amount).1.toNat
  | .subtract _ amount => some (-(memory.fetch amount).1.toNat)
  | .increment _ => some 1
  | .decrement _ => some (-1)
  | _ => none

/-- So many bytes are scanned from an address on: up to the first zero byte, which is one of them,
but not more than `most`, and none behind the end of memory. -/
structure Memory.Scans (memory : Memory) (most address count : ℕ) : Prop where
  le_most : count ≤ most
  inside : address + count ≤ 256
  nonzero : ∀ i, i + 1 < count → memory.byteAt (address + i) ≠ 0
  stops : count = most ∨ address + count = 256 ∨
    0 < count ∧ memory.byteAt (address + count - 1) = 0

/-- Why a fetched instruction fails. -/
inductive Cpu.Fails (cpu : Cpu) (memory : Memory) (instruction : Instruction) : FaultKind → Prop
  | register {number : UInt8} (names : instruction.register? = some number)
      (unknown : 5 ≤ number.toNat) : Fails cpu memory instruction (.invalidRegister number)
  | overflow {change : ℤ} (names : instruction.register? = some 4)
      (changes : instruction.change? memory = some change) (low : cpu.sp.val + change < 0) :
      Fails cpu memory instruction .stackOverflow
  | underflow {change : ℤ} (names : instruction.register? = some 4)
      (changes : instruction.change? memory = some change) (high : 231 < cpu.sp.val + change) :
      Fails cpu memory instruction .stackUnderflow
  | overlap {address : UInt8} {count : ℕ} (prints : instruction = .printText address)
      (scans : memory.Scans 24 address.toNat count)
      (meets : ∃ a, (address.toNat ≤ a ∧ a < address.toNat + count) ∧
        cpu.sp.val + 1 ≤ a ∧ a < cpu.sp.val + 1 + count) :
      Fails cpu memory instruction
        (.memory (.overlappingCopy (cpu.sp.val + 1) address.toNat count))

/-- Why a step fails. -/
inductive Cpu.FaultsWith (cpu : Cpu) (memory : Memory) : FaultKind → Prop
  | outside (behind : cpu.ip.val = 256) : FaultsWith cpu memory (.ipOutOfBounds 256)
  | invalidOpcode (inside : cpu.ip.val < 256) (unknown : 18 ≤ (memory.byteAt cpu.ip).toNat) :
      FaultsWith cpu memory (.invalidOpcode (memory.byteAt cpu.ip))
  | overrun {op : Opcode} (inside : cpu.ip.val < 256) (opcode : memory.byteAt cpu.ip = op.toByte)
      (off : op ≠ .halt) (cut : 256 < cpu.ip + op.width) :
      FaultsWith cpu memory (.memory (.accessViolation 256))
  | instruction {instruction : Instruction} {kind : FaultKind}
      (fetched : cpu.Fetches memory instruction) (fails : cpu.Fails memory instruction kind) :
      FaultsWith cpu memory kind

/-! ### Texts -/

lemma Memory.Scans.le {most address m n : ℕ} (hm : memory.Scans most address m)
    (hn : memory.Scans most address n) : n ≤ m := by
  by_contra hlt
  have hmost := hn.le_most
  have hinside := hn.inside
  obtain h | h | ⟨hpos, hzero⟩ := hm.stops
  · omega
  · omega
  · have hnonzero := hn.nonzero (m - 1) (by omega)
    rw [← Nat.add_sub_assoc hpos] at hnonzero
    exact hnonzero hzero

lemma State.scans_text (cpu : Cpu) (memory : Memory) (most : ℕ) {address : ℕ}
    (h : address ≤ 256) :
    memory.Scans most address ((State.of cpu memory).text most address).length := by
  induction most generalizing address with
  | zero => exact ⟨le_rfl, h, fun _ hi => absurd hi (Nat.not_lt_zero _), .inl rfl⟩
  | succ most ih =>
    unfold State.text
    by_cases hlt : address < 256
    swap
    · rw [dif_neg hlt]
      exact ⟨Nat.zero_le _, h, fun _ hi => absurd hi (Nat.not_lt_zero _),
        .inr (.inl (by simp only [List.length_nil]; omega))⟩
    have hbyte : (State.of cpu memory).cells ⟨address, hlt⟩ = memory.byteAt address :=
      (memory.byteAt_of_lt hlt).symm
    rw [dif_pos hlt, hbyte]
    dsimp only
    by_cases hzero : memory.byteAt address = 0
    · rw [if_pos hzero, List.length_singleton]
      exact ⟨by omega, hlt, fun i hi => by omega, .inr (.inr ⟨Nat.one_pos, hzero⟩)⟩
    · obtain ⟨hle, hinside, hnonzero, hstops⟩ := ih hlt
      rw [if_neg hzero, List.length_cons]
      generalize ((State.of cpu memory).text most (address + 1)).length = count at *
      refine ⟨by omega, by omega, ?_, ?_⟩
      · intro i hi
        cases i with
        | zero => exact hzero
        | succ i =>
          have hnext := hnonzero i (by omega)
          rwa [Nat.succ_add_eq_add_succ] at hnext
      · obtain hcount | hend | ⟨hpos, hlast⟩ := hstops
        · exact .inl (by omega)
        · exact .inr (.inl (by omega))
        · have heq : address + 1 + count - 1 = address + (count + 1) - 1 := by omega
          exact .inr (.inr ⟨Nat.succ_pos _, heq ▸ hlast⟩)

/-- A text instruction prints what is scanned, 24 bytes at most. -/
theorem Memory.scans_iff {address : UInt8} {count : ℕ} :
    memory.Scans 24 address.toNat count ↔ count = (memory.printRun address).length := by
  have hscans := State.scans_text .initial memory 24 (Nat.le_of_lt address.toNat_lt)
  rw [State.text_eq_printRun] at hscans
  constructor
  · exact fun h => Nat.le_antisymm (hscans.le h) (h.le hscans)
  · rintro rfl
    exact hscans

/-! ### Instructions that fail -/

/-- A byte names a general register, the stack pointer, or nothing. -/
lemma Register.ofByte?_cases (number : UInt8) :
    (number.toNat < 4 ∧ ∃ index, ofByte? number = some (.general index)) ∨
      (number = 4 ∧ ofByte? number = some .stackPointer) ∨
      (5 ≤ number.toNat ∧ ofByte? number = none) := by
  by_cases hgeneral : number.toNat < 4
  · exact .inl ⟨hgeneral, _, dif_pos hgeneral⟩
  by_cases hsp : number = 4
  · subst hsp
    exact .inr (.inl ⟨rfl, rfl⟩)
  · have hne : number.toNat ≠ 4 := fun h => hsp (UInt8.toNat_inj.mp h)
    exact .inr (.inr ⟨by omega, by rw [ofByte?, dif_neg hgeneral, if_neg hsp]⟩)

/-- Adding to a register fails on a byte that names none, and where it would take the stack pointer
out of its range. -/
def AdjustFails (cpu : Cpu) (number : UInt8) (amount : ℤ) (kind : FaultKind) : Prop :=
  (5 ≤ number.toNat ∧ kind = .invalidRegister number) ∨
    (number = 4 ∧ cpu.sp.val + amount < 0 ∧ kind = .stackOverflow) ∨
    (number = 4 ∧ 231 < cpu.sp.val + amount ∧ kind = .stackUnderflow)

lemma Cpu.adjust_error_iff {number : UInt8} {amount : ℤ} {kind : FaultKind} :
    cpu.adjust number amount = .error kind ↔ AdjustFails cpu number amount kind := by
  unfold Cpu.adjust AdjustFails
  obtain ⟨hlt, index, hslot⟩ | ⟨rfl, hslot⟩ | ⟨hle, hslot⟩ := Register.ofByte?_cases number
  · have hne : number ≠ 4 := by
      rintro rfl
      exact absurd hlt (by decide)
    have hnot : ¬ 5 ≤ number.toNat := by omega
    simp [hslot, hne, hnot]
  · by_cases hlow : (cpu.sp.val : ℤ) + amount < 0
    · have hhigh : ¬ 231 < (cpu.sp.val : ℤ) + amount := by omega
      simp [hslot, hlow, hhigh, eq_comm]
    by_cases hhigh : (cpu.sp.val : ℤ) + amount ≤ 231
    · simp [hslot, hlow, hhigh, not_lt.mpr hhigh]
    · simp [hslot, hlow, hhigh, not_le.mp hhigh, eq_comm]
  · have hne : number ≠ 4 := by
      rintro rfl
      exact absurd hle (by decide)
    simp [hslot, hne, hle, eq_comm]

section Fails

variable {instruction : Instruction} {number : UInt8} {change : ℤ} {kind : FaultKind}

lemma Cpu.fails_iff_of_change (hnames : instruction.register? = some number)
    (hchanges : instruction.change? memory = some change) :
    cpu.Fails memory instruction kind ↔ AdjustFails cpu number change kind := by
  constructor
  · rintro (⟨names, unknown⟩ | ⟨names, changes, low⟩ | ⟨names, changes, high⟩ | ⟨rfl, _, _⟩)
    · obtain rfl := Option.some.inj (hnames.symm.trans names)
      exact .inl ⟨unknown, rfl⟩
    · obtain rfl := Option.some.inj (hnames.symm.trans names)
      obtain rfl := Option.some.inj (hchanges.symm.trans changes)
      exact .inr (.inl ⟨rfl, low, rfl⟩)
    · obtain rfl := Option.some.inj (hnames.symm.trans names)
      obtain rfl := Option.some.inj (hchanges.symm.trans changes)
      exact .inr (.inr ⟨rfl, high, rfl⟩)
    · cases hnames
  · rintro (⟨unknown, rfl⟩ | ⟨rfl, low, rfl⟩ | ⟨rfl, high, rfl⟩)
    · exact .register hnames unknown
    · exact .overflow hnames hchanges low
    · exact .underflow hnames hchanges high

lemma Cpu.not_fails (hnames : instruction.register? = none)
    (hprints : ∀ address, instruction ≠ .printText address) :
    ¬ cpu.Fails memory instruction kind := by
  rintro (⟨names, _⟩ | ⟨names, _, _⟩ | ⟨names, _, _⟩ | ⟨prints, _, _⟩)
  · cases hnames.symm.trans names
  · cases hnames.symm.trans names
  · cases hnames.symm.trans names
  · exact hprints _ prints

lemma Cpu.fails_compare_iff {amount : Value} :
    cpu.Fails memory (.compare number amount) kind ↔
      5 ≤ number.toNat ∧ kind = .invalidRegister number := by
  constructor
  · rintro (⟨names, unknown⟩ | ⟨_, changes, _⟩ | ⟨_, changes, _⟩ | ⟨prints, _, _⟩)
    · obtain rfl := Option.some.inj names
      exact ⟨unknown, rfl⟩
    · cases changes
    · cases changes
    · cases prints
  · rintro ⟨unknown, rfl⟩
    exact .register rfl unknown

lemma Cpu.fails_printText_iff {address : UInt8} :
    cpu.Fails memory (.printText address) kind ↔
      Memory.Overlap cpu.outputAddress address.toNat (memory.printRun address).length ∧
        kind = .memory (.overlappingCopy cpu.outputAddress address.toNat
          (memory.printRun address).length) := by
  rw [Memory.overlap_iff]
  constructor
  · rintro (⟨names, _⟩ | ⟨names, _, _⟩ | ⟨names, _, _⟩ | ⟨prints, scans, a, hsource, htarget⟩)
    · cases names
    · cases names
    · cases names
    · obtain rfl := Instruction.printText.inj prints
      obtain rfl := Memory.scans_iff.mp scans
      exact ⟨⟨a, htarget, hsource⟩, rfl⟩
  · rintro ⟨⟨a, htarget, hsource⟩, rfl⟩
    exact .overlap rfl (Memory.scans_iff.mpr rfl) ⟨a, hsource, htarget⟩

/-- An instruction fails exactly for one of the reasons. -/
theorem Cpu.perform_error_iff {next : InstructionPointer} :
    (cpu.perform memory next instruction).1 = .error kind ↔
      cpu.Fails memory instruction kind := by
  cases instruction with
  | copy | printDecimal =>
    exact iff_of_false nofun (not_fails rfl nofun)
  | jump condition target =>
    refine iff_of_false ?_ (not_fails rfl nofun)
    dsimp only [perform]
    split_ifs <;> nofun
  | add register amount | subtract register amount | increment register | decrement register =>
    rw [fails_iff_of_change rfl rfl, ← adjust_error_iff]
    exact map_error_iff
  | compare number amount =>
    rw [fails_compare_iff]
    dsimp only [perform]
    obtain ⟨hlt, index, hslot⟩ | ⟨rfl, hslot⟩ | ⟨hle, hslot⟩ := Register.ofByte?_cases number
    · simp [hslot, show ¬ 5 ≤ number.toNat by omega]
    · simp [hslot]
    · simp [hslot, hle, eq_comm]
  | printText address =>
    rw [fails_printText_iff]
    dsimp only [perform]
    by_cases h : Memory.Overlap cpu.outputAddress address.toNat (memory.printRun address).length
    · rw [Memory.copy_printRun_of_overlap h]
      simp [h, eq_comm]
    · obtain ⟨memory', hcopy, -⟩ := Memory.copy_printRun h
      rw [hcopy]
      simp [h]

end Fails

/-! ### Steps that fail -/

lemma Opcode.ofByte?_eq_none_iff {byte : UInt8} : ofByte? byte = none ↔ 18 ≤ byte.toNat :=
  List.getElem?_eq_none_iff

lemma Memory.byteAt_congr (h : memory'.cells = memory.cells) (address : ℕ) :
    memory'.byteAt address = memory.byteAt address := by
  rw [byteAt, h, byteAt]

lemma Memory.Scans.congr {most address count : ℕ} (hscans : memory.Scans most address count)
    (h : memory'.cells = memory.cells) : memory'.Scans most address count where
  le_most := hscans.le_most
  inside := hscans.inside
  nonzero := by simpa only [byteAt_congr h] using hscans.nonzero
  stops := by simpa only [byteAt_congr h] using hscans.stops

lemma Instruction.change?_congr (h : memory'.cells = memory.cells) (instruction : Instruction) :
    instruction.change? memory' = instruction.change? memory := by
  have hbyte (value : Value) : (memory'.fetch value).1 = (memory.fetch value).1 := by
    cases value with
    | literal => rfl
    | cell address => exact congrArg (fun cells => cells[Address.ofByte address]) h
  cases instruction <;> simp only [change?, hbyte]

/-- The note of the last access has no part in whether an instruction fails. -/
lemma Cpu.Fails.congr {instruction : Instruction} {kind : FaultKind}
    (hfails : cpu.Fails memory instruction kind) (h : memory'.cells = memory.cells) :
    cpu.Fails memory' instruction kind := by
  cases hfails with
  | register names unknown => exact .register names unknown
  | overflow names changes low =>
    exact .overflow names ((instruction.change?_congr h).trans changes) low
  | underflow names changes high =>
    exact .underflow names ((instruction.change?_congr h).trans changes) high
  | overlap prints scans meets => exact .overlap prints (scans.congr h) meets

lemma Cpu.Fetches.execute_eq {instruction : Instruction} (h : cpu.Fetches memory instruction) :
    ∃ (next : InstructionPointer) (fetched : Memory), fetched.cells = memory.cells ∧
      cpu.execute memory = ((cpu.perform fetched next instruction).1.map (some instruction, ·),
        (cpu.perform fetched next instruction).2) := by
  obtain ⟨op, hopcode, hfits, hdecode⟩ := h
  obtain ⟨next, fetched, -, cells, heq⟩ := execute_of_decode hopcode hfits hdecode
  exact ⟨next, fetched, cells, heq⟩

/-- Fetching and carrying out fails exactly for one of the reasons. -/
theorem Cpu.execute_error_iff {kind : FaultKind} :
    (cpu.execute memory).1 = .error kind ↔ cpu.FaultsWith memory kind := by
  constructor
  · intro h
    have hexecution := cpu.execution memory
    generalize cpu.execute memory = result at h hexecution
    cases hexecution with
    | outside behind =>
      have hip : cpu.ip.val = 256 := by omega
      obtain rfl := Except.error.inj h
      rw [hip]
      exact .outside hip
    | invalid cells inside unknown =>
      obtain rfl := Except.error.inj h
      exact .invalidOpcode inside (Opcode.ofByte?_eq_none_iff.mp unknown)
    | overrun cells opcode inside cut =>
      obtain rfl := Except.error.inj h
      refine .overrun inside opcode ?_ cut
      rintro rfl
      have hwidth : Opcode.halt.width = 1 := rfl
      omega
    | halt => cases h
    | @carryOut fetched cells op opcode next behind instruction decoded =>
      -- fetching has only noted an access, which no condition looks at
      have hfails := perform_error_iff.mp (map_error_iff.mp h)
      exact .instruction ⟨op, opcode, by omega, decoded⟩ (hfails.congr cells.symm)
  · rintro (behind | ⟨inside, unknown⟩ | ⟨inside, opcode, off, cut⟩ | ⟨fetched, fails⟩)
    · unfold execute
      rw [dif_neg (by omega), behind]
    · unfold execute
      rw [dif_pos inside]
      simp only [Opcode.ofByte?_eq_none_iff.mpr unknown]
    · unfold execute
      rw [dif_pos inside, opcode]
      simp only [Opcode.ofByte?_toByte]
      rw [dif_neg (by omega)]
    · obtain ⟨next, memory', cells, heq⟩ := fetched.execute_eq
      rw [heq]
      exact map_error_iff.mpr (perform_error_iff.mpr (fails.congr cells))

lemma Cpu.step_error_iff (hrunning : cpu.faulted = false) {fault : Fault} :
    (cpu.step memory).1 = .error fault ↔
      fault.ip = cpu.ip ∧ cpu.FaultsWith memory fault.kind := by
  rw [← execute_error_iff]
  unfold step
  rw [hrunning, if_neg Bool.false_ne_true]
  obtain ⟨kind, ip⟩ := fault
  rcases cpu.execute memory with ⟨kind' | ⟨instruction?, cpu'⟩, memory'⟩
  · simp [eq_comm, and_comm]
  · simp

lemma Cpu.step_none_iff (hrunning : cpu.faulted = false) :
    (cpu.step memory).1 = .ok none ↔ cpu.ip.val < 256 ∧ memory.byteAt cpu.ip = 0 := by
  have hexecution := cpu.execution memory
  have hzero : memory.cells[cpu.ip.val]? = some Opcode.halt.toByte ↔
      cpu.ip.val < 256 ∧ memory.byteAt cpu.ip = 0 := getElem?_eq_some_iff_byteAt
  rw [← hzero]
  unfold step
  rw [hrunning, if_neg Bool.false_ne_true]
  constructor
  · intro h
    rcases hresult : cpu.execute memory with ⟨kind | ⟨instruction?, cpu'⟩, memory'⟩
    all_goals rw [hresult] at h hexecution
    · cases h
    · obtain rfl := Except.ok.inj h
      exact (hexecution.of_none rfl).2.2
  · intro h
    have hnone := hexecution.none_of_halt h
    rcases hresult : cpu.execute memory with ⟨kind | ⟨instruction?, cpu'⟩, memory'⟩
    all_goals
      rw [hresult] at hnone
      cases hnone
    rfl

/-- What a step leaves when it fails. -/
lemma Cpu.of_step_error {fault : Fault} (h : cpu.step memory = (.error fault, cpu', memory')) :
    cpu' = { cpu with faulted := true } ∧ memory'.cells = memory.cells ∧ fault.ip = cpu.ip := by
  unfold step at h
  split_ifs at h with hfaulted
  · cases h
    refine ⟨?_, rfl, rfl⟩
    rw [← hfaulted]
  · rcases hresult : cpu.execute memory with ⟨kind | ⟨instruction?, left⟩, memory''⟩
    all_goals
      rw [hresult] at h
      cases h
    have hexecution := cpu.execution memory
    rw [hresult] at hexecution
    exact ⟨rfl, hexecution.cells_of_error rfl, rfl⟩

/-! ### Latching -/

/-- What so many calls of a step answer, one after the other, and what they leave. -/
def calls {σ ρ : Type} (step : σ → ρ × σ) : ℕ → σ → List ρ × σ
  | 0, state => ([], state)
  | n + 1, state =>
    let (result, next) := step state
    let (results, last) := calls step n next
    (result :: results, last)

/-- However often a step is called, it answers that a fault is latched, and leaves everything as it
is. -/
def Latched {σ α : Type} (step : σ → Except Fault α × σ) (ip : ℕ) (state : σ) : Prop :=
  ∀ n, calls step n state = (List.replicate n (.error ⟨.latched, ip⟩), state)

lemma latched_of_step {σ α : Type} {step : σ → Except Fault α × σ} {ip : ℕ} {state : σ}
    (h : step state = (.error ⟨.latched, ip⟩, state)) : Latched step ip state := by
  intro n
  induction n with
  | zero => rfl
  | succ n ih =>
    unfold calls
    rw [h]
    dsimp only
    rw [ih]
    rfl

lemma Cpu.step_of_faulted (h : cpu.faulted = true) (memory : Memory) :
    cpu.step memory = (.error ⟨.latched, cpu.ip⟩, cpu, memory) := by
  rw [step, if_pos h]

lemma Cpu.FaultsWith.ne_latched {kind : FaultKind} (h : cpu.FaultsWith memory kind) :
    kind ≠ .latched := by
  rintro rfl
  cases h with
  | instruction fetched fails => cases fails

/-- A step that is taken while a fault is latched is told from all others by its answer. -/
lemma Cpu.step_latched_iff {ip : ℕ} :
    (cpu.step memory).1 = .error ⟨.latched, ip⟩ ↔ cpu.faulted = true ∧ ip = cpu.ip := by
  cases hfaulted : cpu.faulted with
  | true =>
    rw [step_of_faulted hfaulted]
    simp [eq_comm]
  | false =>
    constructor
    · intro h
      exact absurd rfl ((step_error_iff hfaulted).mp h).2.ne_latched
    · nofun

/-- Faults are atomic, and they latch. Whatever has gone wrong, a failing step leaves cells,
registers, pointers, flags and the length of the last print as they were, and it names where it
began. That holds too of the step in place, which writes as it goes along. From then on every
further step fails in the same place and changes nothing, until a reset or the loading of an image.
No fault is latched behind these. -/
theorem faults_are_atomic_and_latch :
    (∀ (cpu cpu' : Cpu) (memory memory' : Memory) (fault : Fault),
      cpu.step memory = (.error fault, cpu', memory') →
        cpu' = { cpu with faulted := true } ∧ memory'.cells = memory.cells ∧ fault.ip = cpu.ip ∧
        Latched (fun state : Cpu × Memory => state.1.step state.2) cpu.ip (cpu', memory') ∧
        ∀ steps, Latched Machine.step cpu.ip ⟨memory', cpu', steps⟩) ∧
    (∀ (hardware left : Hardware) (fault : Fault), hardware.InRange →
      hardware.step = (.error fault, left) →
        left = { hardware with faulted := true, lastAccess := left.lastAccess } ∧
        fault.ip = hardware.ip ∧ Latched Hardware.step hardware.ip left) ∧
    (∀ (cpu : Cpu) (memory : Memory) (ip : ℕ),
      (cpu.step memory).1 = .error ⟨.latched, ip⟩ ↔ cpu.faulted = true ∧ ip = cpu.ip) ∧
    Cpu.initial.faulted = false ∧ Machine.initial.cpu = .initial ∧
    (∀ image, (Machine.load image).2.cpu = .initial) ∧
    (∀ cpu : Cpu, cpu.reset = .initial) ∧
    ∀ machine : Machine, machine.reset.cpu = .initial ∧
      ∀ image, (machine.reload image).2.cpu = .initial := by
  refine ⟨?_, ?_, fun _ _ _ => Cpu.step_latched_iff, rfl, rfl, Machine.cpu_load, Cpu.reset_eq,
    fun machine => ⟨rfl, fun image => ?_⟩⟩
  · intro cpu cpu' memory memory' fault h
    obtain ⟨rfl, hcells, hip⟩ := Cpu.of_step_error h
    refine ⟨rfl, hcells, hip, latched_of_step (Cpu.step_of_faulted rfl memory'), fun steps => ?_⟩
    exact latched_of_step rfl
  · intro hardware left fault hrange h
    obtain ⟨cpu, memory, rfl⟩ := Hardware.inRange_iff.mp hrange
    rw [Hardware.step_of] at h
    rcases hstep : cpu.step memory with ⟨fault' | instruction?, cpu', memory'⟩
    all_goals rw [hstep] at h
    · obtain ⟨rfl, hcells, hip⟩ := Cpu.of_step_error hstep
      obtain ⟨hfault, rfl⟩ := Prod.mk.inj h
      obtain rfl := Except.error.inj hfault
      refine ⟨?_, hip, latched_of_step ?_⟩
      · unfold Hardware.of
        rw [hcells]
      · rw [Hardware.step_of, Cpu.step_of_faulted rfl]
        rfl
    · cases h
  · rw [Machine.reload_eq]
    exact Machine.cpu_load image

/-- The stack pointer of a new processor cannot be increased, and trying to leaves the flags. -/
theorem faults_are_atomic_and_latch_sample :
    ∃ cpu' memory', Cpu.initial.step (Machine.load [7, 4]).2.memory =
        (.error ⟨.stackUnderflow, 0⟩, cpu', memory') ∧
      cpu' = { Cpu.initial with faulted := true } ∧
      memory'.cells = (Machine.load [7, 4]).2.memory.cells ∧
      Latched (fun state : Cpu × Memory => state.1.step state.2) 0 (cpu', memory') := by
  have hfault : (Cpu.initial.step (Machine.load [7, 4]).2.memory).1 =
      .error ⟨.stackUnderflow, 0⟩ := by decide +kernel
  rcases hstep : Cpu.initial.step (Machine.load [7, 4]).2.memory with ⟨result, cpu', memory'⟩
  rw [hstep] at hfault
  obtain rfl : result = _ := hfault
  obtain ⟨hcpu, hcells, -, hlatched, -⟩ := faults_are_atomic_and_latch.1 _ _ _ _ _ hstep
  exact ⟨cpu', memory', rfl, hcpu, hcells, hlatched⟩

/-! ### Kinds of faults -/

/-- Kinds that a step can fail with: no jump leads out of memory, nothing is divided, and only the
cell behind the last one is ever missed. -/
def FaultKind.Arises : FaultKind → Prop
  | .jumpOutOfBounds _ | .divisionByZero => False
  | .memory (.accessViolation address) => address = 256
  | _ => True

lemma Cpu.FaultsWith.arises {kind : FaultKind} (h : cpu.FaultsWith memory kind) :
    kind.Arises := by
  cases h with
  | outside | invalidOpcode => trivial
  | overrun => rfl
  | instruction fetched fails => cases fails <;> trivial

lemma Machine.arises_of_step {machine : Machine} {fault : Fault}
    (h : machine.step.1 = .error fault) : fault.kind.Arises := by
  unfold step at h
  rcases hresult : machine.cpu.step machine.memory with ⟨fault' | _ | instruction, cpu, memory⟩
  all_goals
    rw [hresult] at h
    cases h
  have herror : (machine.cpu.step machine.memory).1 = .error fault := by rw [hresult]
  cases hfaulted : machine.cpu.faulted with
  | true =>
    rw [Cpu.step_of_faulted hfaulted] at herror
    cases herror
    trivial
  | false => exact ((Cpu.step_error_iff hfaulted).mp herror).2.arises

/-- A run fails with what one of its steps fails with. -/
lemma Machine.arises_of_runFor {σ : Type} {limit : ℕ} {observe : σ → Machine → Event → σ}
    {remaining : ℕ} {observed : σ} {machine : Machine} {fault : Fault}
    (h : (runFor limit observe remaining observed machine).result = .error (.faulted fault)) :
    fault.kind.Arises := by
  revert h
  apply runFor_induction (Q := fun _ _ run =>
    run.result = .error (.faulted fault) → fault.kind.Arises)
  · intro _ _ h
    cases h
  · intro _ machine found next heq h
    obtain rfl := RunError.faulted.inj (Except.error.inj h)
    exact arises_of_step (congrArg Prod.fst heq)
  · intro _ _ _ _ _ h
    cases h
  · exact fun _ _ _ _ _ _ ih => ih

/-- A fetched instruction that does not fail is carried out. -/
lemma Cpu.Fetches.step_eq_ok {instruction : Instruction} (h : cpu.Fetches memory instruction)
    (hrunning : cpu.faulted = false) (hfine : ∀ kind, ¬ cpu.Fails memory instruction kind) :
    (cpu.step memory).1 = .ok (some instruction) := by
  obtain ⟨next, fetched, cells, heq⟩ := h.execute_eq
  unfold step
  rw [hrunning, if_neg Bool.false_ne_true, heq]
  cases hresult : (cpu.perform fetched next instruction).1 with
  | error kind => exact absurd ((perform_error_iff.mp hresult).congr cells.symm) (hfine kind)
  | ok cpu' => rfl

/-- A step fails exactly for one of the reasons, and with its kind. It halts exactly on the halt
marker, and otherwise carries an instruction out. The step in place, with all its checks, answers
the same. So a number is always printed, and in no run does a jump fail, is anything divided by
zero, or is a cell missed that is not right behind the last one. -/
theorem step_fails_exactly (cpu : Cpu) (memory : Memory) (hrunning : cpu.faulted = false) :
    (∀ fault, (cpu.step memory).1 = .error fault ↔
      fault.ip = cpu.ip ∧ cpu.FaultsWith memory fault.kind) ∧
    ((cpu.step memory).1 = .ok none ↔ cpu.ip.val < 256 ∧ memory.byteAt cpu.ip = 0) ∧
    ((∃ instruction, (cpu.step memory).1 = .ok (some instruction)) ↔
      (∀ kind, ¬ cpu.FaultsWith memory kind) ∧
        ¬ (cpu.ip.val < 256 ∧ memory.byteAt cpu.ip = 0)) ∧
    (Hardware.of cpu memory).step.1 = (cpu.step memory).1.map Option.isSome ∧
    (∀ address, cpu.Fetches memory (.printDecimal address) →
      (cpu.step memory).1 = .ok (some (.printDecimal address))) ∧
    (∀ (machine : Machine) (fault : Fault),
      machine.step.1 = .error fault → fault.kind.Arises) ∧
    ∀ (machine : Machine) (limit : ℕ) (fault : Fault),
      ((machine.run limit).result = .error (.faulted fault) → fault.kind.Arises) ∧
      ∀ (σ : Type) (observe : σ → Machine → Event → σ) (start : σ),
        (machine.runWith limit observe start).result = .error (.faulted fault) →
          fault.kind.Arises := by
  have herror (fault : Fault) : (cpu.step memory).1 = .error fault ↔
      fault.ip = cpu.ip ∧ cpu.FaultsWith memory fault.kind := Cpu.step_error_iff hrunning
  have hnone : (cpu.step memory).1 = .ok none ↔ cpu.ip.val < 256 ∧ memory.byteAt cpu.ip = 0 :=
    Cpu.step_none_iff hrunning
  refine ⟨herror, hnone, ?_, ?_, ?_, fun _ _ => Machine.arises_of_step, ?_⟩
  · rw [← hnone]
    constructor
    · rintro ⟨instruction, h⟩
      rw [h]
      refine ⟨fun kind hkind => ?_, nofun⟩
      cases h.symm.trans ((herror ⟨kind, cpu.ip⟩).mpr ⟨rfl, hkind⟩)
    · rintro ⟨hfine, hoff⟩
      rcases hresult : (cpu.step memory).1 with fault | _ | instruction
      · exact absurd ((herror fault).mp hresult).2 (hfine _)
      · exact absurd hresult hoff
      · exact ⟨instruction, rfl⟩
  · rw [Hardware.step_of]
  · exact fun address h => h.step_eq_ok hrunning fun _ => Cpu.not_fails rfl nofun
  · exact fun machine limit fault =>
      ⟨Machine.arises_of_runFor, fun _ _ _ => Machine.arises_of_runFor⟩

/-- A text of one zero byte that starts where it would be printed overlaps with itself. -/
theorem step_fails_exactly_sample :
    (Cpu.initial.step (Machine.load [14, 232]).2.memory).1 =
      .error ⟨.memory (.overlappingCopy 232 232 1), 0⟩ := by
  have hfetched : Cpu.initial.Fetches (Machine.load [14, 232]).2.memory (.printText 232) :=
    ⟨.printText, by decide +kernel, by decide, by decide +kernel⟩
  have hscans : (Machine.load [14, 232]).2.memory.Scans 24 (232 : UInt8).toNat 1 :=
    ⟨by decide, by decide, by omega, .inr (.inr ⟨by decide, by decide +kernel⟩)⟩
  have hfails : Cpu.initial.Fails (Machine.load [14, 232]).2.memory (.printText 232)
      (.memory (.overlappingCopy 232 232 1)) := .overlap rfl hscans ⟨232, by decide, by decide⟩
  exact ((step_fails_exactly _ _ rfl).1 _).mpr ⟨rfl, .instruction hfetched hfails⟩

end Octet
