import Octet.Proofs.Results
import Octet.Cpu.Step

/-!
# What instructions mean

The meaning of an instruction as a function of what a program can see: cells, registers, pointers
and flags. Arithmetic is done on integers, and nothing is said about how an instruction is encoded
or which cells are looked at on the way. The processor does what the instruction means.
-/
namespace Octet

open Results

/-- What a program can see. -/
@[ext]
structure State where
  cells : Address → UInt8
  general : Fin 4 → UInt8
  sp : ℕ
  ip : ℕ
  zero : Bool
  carry : Bool
  printLength : ℕ

namespace State

def of (cpu : Cpu) (memory : Memory) : State where
  cells := memory.cell
  general := cpu.general.get
  sp := cpu.sp
  ip := cpu.ip
  zero := cpu.zero
  carry := cpu.carry
  printLength := cpu.printLength

/-- Put bytes into the cells from an address on. -/
def write (state : State) (address : ℕ) (bytes : List UInt8) : State :=
  { state with cells := fun a =>
      if address ≤ a.val then (bytes[a.val - address]?).getD (state.cells a) else state.cells a }

/-- The flags tell how an integer result lies to the range of a byte. -/
def setFlags (state : State) (raw : ℤ) : State :=
  { state with zero := raw = 0, carry := raw < 0 ∨ 255 < raw }

/-- What the register with this number holds, if there is one. -/
def register? (state : State) (number : UInt8) : Option ℕ :=
  if h : number.toNat < 4 then some (state.general ⟨number.toNat, h⟩).toNat
  else if number.toNat = 4 then some state.sp
  else none

/-- Add an integer to a register. Only general registers wrap around. -/
def adjust (state : State) (number : UInt8) (amount : ℤ) : Except FaultKind State :=
  if h : number.toNat < 4 then
    let raw := (state.general ⟨number.toNat, h⟩).toNat + amount
    let byte := UInt8.ofNat (raw % 256).toNat
    .ok { state.setFlags raw with general := Function.update state.general ⟨number.toNat, h⟩ byte }
  else if number.toNat = 4 then
    let raw := state.sp + amount
    if raw < 0 then .error .stackOverflow
    else if 231 < raw then .error .stackUnderflow
    else .ok { state.setFlags raw with sp := raw.toNat }
  else .error (.invalidRegister number)

/-- The bytes from an address on up to the first zero, which is included, but at most so many and
only those inside memory. -/
def text (state : State) : (most address : ℕ) → List UInt8
  | 0, _ => []
  | most + 1, address =>
    if h : address < 256 then
      let byte := state.cells ⟨address, h⟩
      if byte = 0 then [0] else byte :: state.text most (address + 1)
    else []

/-- Put what is printed above the stack pointer. -/
def print (state : State) (bytes : List UInt8) : State :=
  { state.write (state.sp + 1) bytes with printLength := bytes.length }

/-- Continue at an address. -/
def goto (state : State) (ip : ℕ) : State := { state with ip }

end State

/-- A literal is taken as it is, and an address in brackets is looked up. -/
def Value.byte (state : State) : Value → UInt8
  | .literal byte => byte
  | .cell address => state.cells (.ofByte address)

/-- The state behind an instruction whose successor in memory is at `next`, or why it fails. -/
def Instruction.meaning (next : ℕ) (state : State) : Instruction → Except FaultKind State
  | .copy target source => .ok ((state.write target.toNat [source.byte state]).goto next)
  | .add register amount =>
    (state.adjust register (amount.byte state).toNat).map (·.goto next)
  | .subtract register amount =>
    (state.adjust register (-(amount.byte state).toNat)).map (·.goto next)
  | .increment register => (state.adjust register 1).map (·.goto next)
  | .decrement register => (state.adjust register (-1)).map (·.goto next)
  | .compare register amount =>
    match state.register? register with
    | some held => .ok ((state.setFlags (held - (amount.byte state).toNat)).goto next)
    | none => .error (.invalidRegister register)
  | .jump condition target =>
    .ok (state.goto (if condition.holds state.zero state.carry then target.toNat else next))
  | .printDecimal address =>
    .ok ((state.print [state.cells (.ofByte address)]).goto next)
  | .printText address =>
    let bytes := state.text 24 address.toNat
    if state.sp + 1 < address.toNat + bytes.length ∧
        address.toNat < state.sp + 1 + bytes.length then
      .error (.memory (.overlappingCopy (state.sp + 1) address.toNat bytes.length))
    else
      .ok ((state.print bytes).goto next)

variable {cpu : Cpu} {memory : Memory}

/-! ### Parts of the processor -/

lemma Memory.fst_fetch (cpu : Cpu) (memory : Memory) (value : Value) :
    (memory.fetch value).1 = value.byte (.of cpu memory) := by
  cases value <;> rfl

@[simp] lemma Memory.cells_snd_fetch (memory : Memory) (value : Value) :
    (memory.fetch value).2.cells = memory.cells := by
  cases value <;> rfl

/-- Only the cells of a memory are seen. -/
lemma State.of_congr {memory' : Memory} (h : memory'.cells = memory.cells) :
    State.of cpu memory' = State.of cpu memory := by
  unfold State.of Memory.cell
  rw [h]

lemma Cpu.of_setFlags (cpu : Cpu) (memory : Memory) (raw : ℤ) :
    State.of (cpu.setFlags (.ofInt raw)) memory = (State.of cpu memory).setFlags raw := by
  unfold Cpu.setFlags Evaluation.ofInt State.of State.setFlags
  congr 1
  simp

/-- A number names the register that is found by it. -/
lemma Cpu.register?_of (cpu : Cpu) (memory : Memory) (number : UInt8) :
    (State.of cpu memory).register? number = (Register.ofByte? number).map cpu.register := by
  unfold State.register? Register.ofByte?
  by_cases hgeneral : number.toNat < 4
  · rw [dif_pos hgeneral, dif_pos hgeneral]
    rfl
  · rw [dif_neg hgeneral, dif_neg hgeneral]
    by_cases hsp : number = 4
    · subst hsp
      rfl
    · have hne : number.toNat ≠ 4 := fun h => hsp (UInt8.toNat_inj.mp h)
      rw [if_neg hne, if_neg hsp]
      rfl

lemma get_set_eq_update (general : Vector UInt8 4) (slot index : Fin 4) (byte : UInt8) :
    (general.set slot byte slot.isLt).get index = Function.update general.get slot byte index := by
  by_cases h : index = slot
  · subst h
    rw [Function.update_self]
    exact Vector.getElem_set_self _
  · rw [Function.update_of_ne h]
    exact Vector.getElem_set_ne _ _ fun heq => h (Fin.ext heq.symm)

theorem Cpu.adjust_meaning (cpu : Cpu) (memory : Memory) (number : UInt8) (amount : ℤ) :
    (cpu.adjust number amount).map (State.of · memory) =
      (State.of cpu memory).adjust number amount := by
  unfold Cpu.adjust State.adjust
  by_cases hgeneral : number.toNat < 4
  · have hregister : Register.ofByte? number = some (.general ⟨number.toNat, hgeneral⟩) :=
      dif_pos hgeneral
    rw [hregister, dif_pos hgeneral]
    refine congrArg Except.ok ?_
    rw [← cpu.of_setFlags memory]
    ext index : 2
    case general => exact get_set_eq_update _ _ _ _
    all_goals rfl
  · by_cases hsp : number = 4
    · subst hsp
      have hregister : Register.ofByte? 4 = some .stackPointer := rfl
      rw [hregister, dif_neg hgeneral, if_pos (show (4 : UInt8).toNat = 4 from rfl)]
      have hsp : (State.of cpu memory).sp = cpu.sp.val := rfl
      dsimp only
      rw [hsp]
      by_cases hlow : (cpu.sp.val : ℤ) + amount < 0
      · rw [if_pos hlow, if_pos hlow]
        rfl
      by_cases hhigh : (cpu.sp.val : ℤ) + amount ≤ 231
      · rw [if_neg hlow, if_neg hlow, dif_pos hhigh, if_neg (by omega)]
        refine congrArg Except.ok ?_
        rw [← cpu.of_setFlags memory]
        rfl
      · rw [if_neg hlow, if_neg hlow, dif_neg hhigh, if_pos (by omega)]
        rfl
    · have hne : number.toNat ≠ 4 := fun h => hsp (UInt8.toNat_inj.mp h)
      have hregister : Register.ofByte? number = none := by
        rw [Register.ofByte?, dif_neg hgeneral, if_neg hsp]
      rw [hregister, dif_neg hgeneral, if_neg hne]
      rfl

/-! ### Texts -/

lemma Memory.slice_succ (memory : Memory) {address : ℕ} (h : address < 256) (count : ℕ) :
    memory.slice address (count + 1) =
      memory.cell ⟨address, h⟩ :: memory.slice (address + 1) count := by
  have hlength : address < memory.cells.toList.length := by simpa using h
  rw [slice, List.drop_eq_getElem_cons hlength, List.take_succ_cons]
  simp [slice, cell]

lemma Memory.slice_of_le (memory : Memory) {address : ℕ} (h : 256 ≤ address) (count : ℕ) :
    memory.slice address count = [] := by
  rw [slice, List.drop_of_length_le (by simpa using h), List.take_nil]

/-- A text is found cell by cell, or all at once in a window. -/
lemma State.text_of (cpu : Cpu) (memory : Memory) (most address : ℕ) :
    (State.of cpu memory).text most address =
      (memory.slice address most).take ((memory.slice address most).idxOf 0 + 1) := by
  induction most generalizing address with
  | zero => simp [State.text, Memory.slice]
  | succ most ih =>
    unfold State.text
    by_cases h : address < 256
    · rw [dif_pos h, memory.slice_succ h]
      have hcell : (State.of cpu memory).cells ⟨address, h⟩ = memory.cell ⟨address, h⟩ := rfl
      dsimp only
      rw [hcell]
      by_cases hzero : memory.cell ⟨address, h⟩ = 0
      · rw [if_pos hzero, hzero]
        simp
      · rw [if_neg hzero, List.idxOf_cons_ne _ hzero, List.take_succ_cons, ih]
    · rw [dif_neg h, memory.slice_of_le (not_lt.mp h)]
      rfl

lemma State.text_eq_printRun (cpu : Cpu) (memory : Memory) (address : UInt8) :
    (State.of cpu memory).text 24 address.toNat = memory.printRun address :=
  State.text_of cpu memory 24 address.toNat

lemma Memory.getElem?_printRun (memory : Memory) {address : UInt8} {i : ℕ}
    (h : i < (memory.printRun address).length) :
    (memory.printRun address)[i]? = memory.cells[address.toNat + i]? := by
  unfold printRun slice at h ⊢
  simp only [List.length_take, List.length_drop] at h
  rw [List.getElem?_take_of_lt (by omega), List.getElem?_take_of_lt (by omega), List.getElem?_drop]
  simp

lemma State.of_write (cpu : Cpu) (memory : Memory) (address : Address) (byte : UInt8) :
    State.of cpu (memory.write address byte) = (State.of cpu memory).write address [byte] := by
  have hcells (a : Address) : (memory.write address byte).cell a =
      if address.val ≤ a.val then ([byte][a.val - address.val]?).getD (memory.cell a)
      else memory.cell a := by
    rw [Memory.cell_write]
    rcases lt_trichotomy address.val a.val with hlt | heq | hgt
    · have hbehind : [byte].length ≤ a.val - address.val := by
        rw [List.length_singleton]
        omega
      rw [if_neg (by rintro rfl; omega), if_pos hlt.le, List.getElem?_eq_none hbehind]
      rfl
    · rw [if_pos (Fin.ext heq), if_pos heq.le, heq, Nat.sub_self]
      rfl
    · rw [if_neg (by rintro rfl; omega), if_neg (by omega)]
  exact State.ext (funext hcells) rfl rfl rfl rfl rfl rfl

/-! ### Printing a text -/

variable {address : UInt8}

/-- What a text instruction prints fits above the stack pointer. -/
lemma Memory.hasRange_printRun (cpu : Cpu) (memory : Memory) (address : UInt8) :
    HasRange cpu.outputAddress (memory.printRun address).length ∧
      HasRange address.toNat (memory.printRun address).length := by
  have hlength := memory.length_printRun_le address
  have haddress := address.toNat_lt
  have hsp : cpu.outputAddress.val = cpu.sp.val + 1 := rfl
  exact ⟨⟨cpu.outputAddress.isLt, by omega⟩, haddress, hlength.2⟩

lemma Memory.copy_printRun_of_overlap
    (h : Overlap cpu.outputAddress address.toNat (memory.printRun address).length) :
    memory.copy cpu.outputAddress address.toNat (memory.printRun address).length =
      .error (.overlappingCopy cpu.outputAddress address.toNat
        (memory.printRun address).length) := by
  obtain ⟨htarget, hsource⟩ := memory.hasRange_printRun cpu address
  rw [copy, dif_pos htarget, dif_pos hsource, if_pos h]

lemma Memory.copy_printRun
    (h : ¬ Overlap cpu.outputAddress address.toNat (memory.printRun address).length) :
    ∃ memory', memory.copy cpu.outputAddress address.toNat (memory.printRun address).length =
        .ok memory' ∧
      State.of cpu memory' =
        (State.of cpu memory).write (cpu.sp + 1) (memory.printRun address) := by
  obtain ⟨htarget, hsource⟩ := memory.hasRange_printRun cpu address
  have hsp : cpu.outputAddress.val = cpu.sp.val + 1 := rfl
  unfold copy
  rw [dif_pos htarget, dif_pos hsource, if_neg h]
  refine ⟨_, rfl, State.ext (funext fun a => ?_) rfl rfl rfl rfl rfl rfl⟩
  dsimp only [State.of, State.write, cell, copiedCells]
  rw [Fin.getElem_fin, Vector.getElem_ofFn]
  by_cases hrange : cpu.outputAddress ≤ a.val ∧
      a.val < cpu.outputAddress + (memory.printRun address).length
  · rw [dif_pos hrange, if_pos (hsp ▸ hrange.1), getElem?_printRun _ (by omega),
      getElem?_pos memory.cells _ (by have := hsource.2; omega)]
    rfl
  · rw [dif_neg hrange]
    split_ifs with hle
    · rw [List.getElem?_eq_none (by omega)]
      rfl
    · rfl

/-! ### Instructions -/

lemma Cpu.adjust_goto {memory' : Memory} (h : memory'.cells = memory.cells) (number : UInt8)
    (amount : ℤ) (next : InstructionPointer) :
    ((cpu.adjust number amount).map ({ · with ip := next })).map (State.of · memory') =
      ((State.of cpu memory).adjust number amount).map (·.goto next) := by
  rw [← adjust_meaning]
  cases cpu.adjust number amount with
  | error kind => rfl
  | ok cpu' =>
    refine congrArg Except.ok ?_
    dsimp only
    rw [State.of_congr h]
    rfl

/-- What the processor does to the state is what the instruction means. -/
theorem Cpu.perform_meaning (cpu : Cpu) (memory : Memory) (next : InstructionPointer)
    (instruction : Instruction) :
    (cpu.perform memory next instruction).1.map
        (State.of · (cpu.perform memory next instruction).2) =
      instruction.meaning next (State.of cpu memory) := by
  cases instruction with
  | copy target source =>
    refine congrArg Except.ok ?_
    rw [← memory.fst_fetch cpu source, ← State.of_congr (memory.cells_snd_fetch source),
      ← Address.val_ofByte, ← State.of_write]
    rfl
  | add register amount | subtract register amount =>
    rw [Instruction.meaning, ← memory.fst_fetch cpu amount]
    exact adjust_goto (memory.cells_snd_fetch amount) register _ next
  | increment register | decrement register => exact adjust_goto rfl register _ next
  | compare register amount =>
    dsimp only [perform, Instruction.meaning]
    rw [register?_of, ← memory.fst_fetch cpu amount]
    cases Register.ofByte? register with
    | none => rfl
    | some slot =>
      refine congrArg Except.ok ?_
      dsimp only
      rw [State.of_congr (memory.cells_snd_fetch amount), ← of_setFlags]
      rfl
  | jump condition target =>
    dsimp only [perform, Instruction.meaning]
    by_cases h : condition.holds cpu.zero cpu.carry
    · rw [if_pos h, show (State.of cpu memory).zero = cpu.zero from rfl,
        show (State.of cpu memory).carry = cpu.carry from rfl, if_pos h]
      rfl
    · rw [if_neg h, show (State.of cpu memory).zero = cpu.zero from rfl,
        show (State.of cpu memory).carry = cpu.carry from rfl, if_neg h]
      rfl
  | printDecimal address =>
    refine congrArg Except.ok ?_
    have hwrite := State.of_write cpu memory cpu.outputAddress (memory.cell (.ofByte address))
    exact congrArg (fun state : State => { state.goto next with printLength := 1 }) hwrite
  | printText address =>
    dsimp only [perform, Instruction.meaning]
    rw [State.text_eq_printRun]
    have hpos := memory.length_printRun_pos address
    by_cases h : Memory.Overlap cpu.outputAddress address.toNat (memory.printRun address).length
    · rw [Memory.copy_printRun_of_overlap h]
      exact (if_pos ⟨h.2.2, h.2.1⟩).symm
    · obtain ⟨memory', hcopy, hstate⟩ := Memory.copy_printRun h
      have hapart : ¬ (cpu.sp.val + 1 < address.toNat + (memory.printRun address).length ∧
          address.toNat < cpu.sp.val + 1 + (memory.printRun address).length) :=
        fun hoverlap => h ⟨hpos, hoverlap.2, hoverlap.1⟩
      rw [hcopy]
      refine Eq.trans ?_ (if_neg hapart).symm
      refine congrArg Except.ok ?_
      unfold State.print
      rw [show (State.of cpu memory).sp = cpu.sp.val from rfl, ← hstate]
      rfl

/-! ### Steps -/

/-- One step carries out an instruction with this outcome. After a fault nothing that a program can
see has changed. -/
def Cpu.CarriesOut (cpu : Cpu) (memory : Memory) (instruction : Instruction) :
    Except FaultKind State → Prop
  | .ok state => ∃ cpu' memory', cpu.step memory = (.ok (some instruction), cpu', memory') ∧
      State.of cpu' memory' = state ∧ cpu'.faulted = false
  | .error kind => ∃ cpu' memory', cpu.step memory = (.error ⟨kind, cpu.ip⟩, cpu', memory') ∧
      State.of cpu' memory' = State.of cpu memory ∧ cpu'.faulted = true

/-- What an instruction can leave of a processor: it goes on somewhere, it sets the flags by a
result and may change registers, or it notes how much it has printed. -/
inductive Cpu.Performed (cpu : Cpu) : Cpu → Prop
  | went (ip : InstructionPointer) : Performed cpu { cpu with ip }
  | evaluated (raw : ℤ) (general : Vector UInt8 4) (sp : StackPointer) (ip : InstructionPointer) :
      Performed cpu { cpu.setFlags (.ofInt raw) with general, sp, ip }
  | printed {count : ℕ} (short : count ≤ 24) (ip : InstructionPointer) :
      Performed cpu { cpu with ip, printLength := count }

lemma Cpu.performed_of_adjust {cpu' : Cpu} {number : UInt8} {amount : ℤ}
    {next : InstructionPointer}
    (h : (cpu.adjust number amount).map ({ · with ip := next }) = .ok cpu') :
    cpu.Performed cpu' := by
  obtain ⟨adjusted, hadjusted, rfl⟩ := map_ok_iff.mp h
  unfold adjust at hadjusted
  split at hadjusted
  · cases hadjusted
  · cases hadjusted
    exact .evaluated _ _ _ _
  · dsimp only at hadjusted
    split_ifs at hadjusted
    cases hadjusted
    exact .evaluated _ _ _ _

/-- Every instruction that is carried out leaves one of these. -/
theorem Cpu.performed_of_perform {cpu' : Cpu} {next : InstructionPointer}
    {instruction : Instruction} (h : (cpu.perform memory next instruction).1 = .ok cpu') :
    cpu.Performed cpu' := by
  cases instruction with
  | add | subtract | increment | decrement => exact performed_of_adjust h
  | copy =>
    cases h
    exact .went next
  | printDecimal =>
    have hone : 1 ≤ 24 := by decide
    cases h
    exact .printed hone next
  | compare register amount =>
    dsimp only [perform] at h
    split at h
    · cases h
    · cases h
      exact .evaluated _ cpu.general cpu.sp next
  | jump condition target =>
    dsimp only [perform] at h
    split_ifs at h
    all_goals
      cases h
      exact .went _
  | printText address =>
    have hlength := memory.length_printRun_le address
    dsimp only [perform] at h
    split at h
    · cases h
      exact .printed hlength.1 next
    · cases h

lemma Cpu.Performed.faulted_eq {cpu' : Cpu} (h : cpu.Performed cpu') :
    cpu'.faulted = cpu.faulted := by
  cases h <;> rfl

/-- A failing instruction leaves the cells alone. -/
lemma Cpu.cells_of_perform_error {kind : FaultKind} {next : InstructionPointer}
    {instruction : Instruction} (h : (cpu.perform memory next instruction).1 = .error kind) :
    (cpu.perform memory next instruction).2.cells = memory.cells := by
  cases instruction with
  | add register amount | subtract register amount => exact memory.cells_snd_fetch amount
  | increment register | decrement register => rfl
  | copy | printDecimal => cases h
  | compare register amount =>
    dsimp only [perform] at h ⊢
    cases hregister : Register.ofByte? register with
    | none => rfl
    | some slot => exact memory.cells_snd_fetch amount
  | jump condition target =>
    dsimp only [perform] at h
    split_ifs at h
  | printText address =>
    dsimp only [perform] at h ⊢
    split at h
    · cases h
    · rfl

/-- What is fetched is carried out, on memory with the same cells. -/
lemma Cpu.execute_of_decode {op : Opcode} {instruction : Instruction}
    (hbyte : memory.byteAt cpu.ip = op.toByte) (hfits : cpu.ip + op.width ≤ 256)
    (hdecode : Instruction.decode? op (memory.byteAt (cpu.ip + 1)) (memory.byteAt (cpu.ip + 2)) =
      some instruction) :
    ∃ (next : InstructionPointer) (fetched : Memory), next.val = cpu.ip + op.width ∧
      fetched.cells = memory.cells ∧ cpu.execute memory =
        ((cpu.perform fetched next instruction).1.map (some instruction, ·),
          (cpu.perform fetched next instruction).2) := by
  have hpos := op.width_pos
  have hinside : cpu.ip.val < 256 := by omega
  refine ⟨⟨cpu.ip + op.width, by omega⟩, memory.touch ⟨cpu.ip + op.width - 1, by omega⟩, rfl, rfl,
    ?_⟩
  unfold execute
  rw [dif_pos hinside, hbyte]
  simp only [Opcode.ofByte?_toByte]
  rw [dif_pos hfits, hdecode]

/-- Where an instruction can be fetched, a step does what it means. -/
theorem Cpu.carriesOut_of_decode (hfaulted : cpu.faulted = false) {op : Opcode}
    {instruction : Instruction} (hbyte : memory.byteAt cpu.ip = op.toByte)
    (hfits : cpu.ip + op.width ≤ 256)
    (hdecode : Instruction.decode? op (memory.byteAt (cpu.ip + 1)) (memory.byteAt (cpu.ip + 2)) =
      some instruction) :
    cpu.CarriesOut memory instruction
      (instruction.meaning (cpu.ip + op.width) (State.of cpu memory)) := by
  obtain ⟨next, fetched, hnext, hcells, hexecute⟩ := execute_of_decode hbyte hfits hdecode
  have hmeaning := cpu.perform_meaning fetched next instruction
  have hfetched : State.of cpu fetched = State.of cpu memory := State.of_congr hcells
  rw [hfetched, hnext] at hmeaning
  rw [← hmeaning]
  cases hresult : (cpu.perform fetched next instruction).1 with
  | error kind =>
    refine ⟨{ cpu with faulted := true }, (cpu.perform fetched next instruction).2, ?_, ?_, rfl⟩
    · rw [step, hfaulted, hexecute, hresult]
      rfl
    · exact (State.of_congr (cells_of_perform_error hresult)).trans hfetched
  | ok cpu' =>
    refine ⟨cpu', (cpu.perform fetched next instruction).2, ?_, rfl, ?_⟩
    · rw [step, hfaulted, hexecute, hresult]
      rfl
    · rw [(performed_of_perform hresult).faulted_eq, hfaulted]

end Octet
