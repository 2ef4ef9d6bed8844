import Octet.Proofs.Semantics

/-!
# Steps in place

The step of the processor once more, on plain numbers and in place. A pointer may hold any number
here, every access to memory is checked on its own, and a write takes effect at once, so that an
instruction which fails half way leaves behind what it has written until then. Where the pointers
are in range the two steps agree in what they answer and in what they leave. The checks that the
processor does without cannot fail, then, and no check that fails comes behind a write.
-/
namespace Octet

open Results

/-- Cells, registers and pointers as plain numbers. -/
structure Hardware where
  cells : Vector UInt8 256
  lastAccess : Option ℕ
  general : Vector UInt8 4
  sp : UInt8
  ip : ℕ
  zero : Bool
  carry : Bool
  faulted : Bool
  printLength : ℕ

namespace Hardware

/-- Work that may fail. What it has done until then stays done. -/
abbrev Work := EStateM FaultKind Hardware

def require (condition : Prop) [Decidable condition] (kind : FaultKind) : Work Unit :=
  if condition then pure () else throw kind

/-! ### Cells -/

def checkAddress (address : ℕ) : Work Unit :=
  require (address < 256) (.memory (.accessViolation address))

def checkRange (address count : ℕ) : Work Unit := do
  checkAddress address
  require (address + count ≤ 256) (.memory (.accessViolation address))

def load (address : ℕ) : Work UInt8 := do
  checkAddress address
  modify ({ · with lastAccess := some address })
  return ((← get).cells[address]?).getD 0

def store (address : ℕ) (byte : UInt8) : Work Unit := do
  checkAddress address
  modify fun hardware =>
    { hardware with
      lastAccess := some address
      cells := hardware.cells.setIfInBounds address byte }

/-- The cells after a block of them is moved. -/
def moved (cells : Vector UInt8 256) (target source count : ℕ) : Vector UInt8 256 :=
  Vector.ofFn fun a : Address =>
    if target ≤ a.val ∧ a.val < target + count then (cells[source + (a.val - target)]?).getD 0
    else cells.get a

def copy (target source count : ℕ) : Work Unit := do
  checkRange target count
  checkRange source count
  require (¬ Memory.Overlap target source count) (.memory (.overlappingCopy target source count))
  modify fun hardware => { hardware with cells := moved hardware.cells target source count }
  if 0 < count then modify ({ · with lastAccess := some (target + count - 1) }) else pure ()

/-! ### Registers -/

def slot (number : UInt8) : Work Register :=
  match Register.ofByte? number with
  | some slot => pure slot
  | none => throw (.invalidRegister number)

def held : Register → Work UInt8
  | .general index => return (← get).general.get index
  | .stackPointer => return (← get).sp

def put (byte : UInt8) : Register → Work Unit
  | .general ⟨index, hindex⟩ => modify fun hardware =>
      { hardware with general := hardware.general.set index byte hindex }
  | .stackPointer => modify ({ · with sp := byte })

def setFlags (evaluation : Evaluation) : Work Unit :=
  modify ({ · with zero := evaluation.zero, carry := evaluation.carry })

/-- Only the stack pointer has a range to stay in. -/
def checkStack (raw : ℤ) : Register → Work Unit
  | .general _ => pure ()
  | .stackPointer => do
    require (0 ≤ raw) .stackOverflow
    require (raw ≤ 231) .stackUnderflow

def arithmetic (number : UInt8) (amount : ℤ) : Work Unit := do
  let slot ← slot number
  let raw := (← held slot).toNat + amount
  checkStack raw slot
  setFlags (.ofInt raw)
  put (Evaluation.ofInt raw).value slot

/-! ### Instructions -/

/-- The address of the next instruction when a jump is taken. -/
def jumpTarget (target : ℕ) : Work ℕ := do
  require (target < 256) (.jumpOutOfBounds target)
  return target

/-- Count the bytes up to the first zero, going on for so many at most. -/
def scan (source : ℕ) : (remaining count : ℕ) → Work ℕ
  | 0, count => pure count
  | remaining + 1, count =>
    if source + count < 256 then do
      let byte ← load (source + count)
      if byte = 0 then pure (count + 1) else scan source remaining (count + 1)
    else pure count

def outputAddress : Work ℕ := return (← get).sp.toNat + 1

def byteOf : Value → Work UInt8
  | .literal byte => pure byte
  | .cell address => load address.toNat

def goto (ip : ℕ) : Work Unit := modify ({ · with ip })

/-- Carry an instruction out. Going on to the next one comes last. -/
def carryOut (next : ℕ) : Instruction → Work Unit
  | .copy target source => do
    let byte ← byteOf source
    store target.toNat byte
    goto next
  | .add register amount => do
    let byte ← byteOf amount
    arithmetic register byte.toNat
    goto next
  | .subtract register amount => do
    let byte ← byteOf amount
    arithmetic register (-byte.toNat)
    goto next
  | .increment register => do
    arithmetic register 1
    goto next
  | .decrement register => do
    arithmetic register (-1)
    goto next
  | .compare register amount => do
    let held ← held (← slot register)
    let byte ← byteOf amount
    setFlags (.ofInt (held.toNat - byte.toNat))
    goto next
  | .jump condition target => do
    let hardware ← get
    if condition.holds hardware.zero hardware.carry then goto (← jumpTarget target.toNat)
    else goto next
  | .printDecimal address => do
    let byte ← load address.toNat
    store (← outputAddress) byte
    modify ({ · with printLength := 1 })
    goto next
  | .printText address => do
    let count ← scan address.toNat 24 0
    copy (← outputAddress) address.toNat count
    modify ({ · with printLength := count })
    goto next

/-- An operand byte behind the opcode, and 0 if the opcode has none there. -/
def operand (ip : ℕ) (op : Opcode) (i : ℕ) : Work UInt8 :=
  if i < op.operandCount then load (ip + 1 + i) else pure 0

/-- Fetch an instruction and carry it out. The answer is false on the halt marker. -/
def execute : Work Bool := do
  let ip := (← get).ip
  require (ip < 256) (.ipOutOfBounds ip)
  let byte ← load ip
  match Opcode.ofByte? byte with
  | none => throw (.invalidOpcode byte)
  | some op => do
    let a ← operand ip op 0
    let b ← operand ip op 1
    match Instruction.decode? op a b with
    | none => return false
    | some instruction => do
      carryOut (ip + op.width) instruction
      return true

/-- One step, and what it leaves. -/
def step (hardware : Hardware) : Except Fault Bool × Hardware :=
  if hardware.faulted then (.error ⟨.latched, hardware.ip⟩, hardware)
  else
    match execute.run hardware with
    | .ok running left => (.ok running, left)
    | .error kind left => (.error ⟨kind, hardware.ip⟩, { left with faulted := true })

/-- A processor and its memory as plain numbers. -/
def of (cpu : Cpu) (memory : Memory) : Hardware where
  cells := memory.cells
  lastAccess := memory.lastAccess.map Fin.val
  general := cpu.general
  sp := UInt8.ofNat cpu.sp
  ip := cpu.ip
  zero := cpu.zero
  carry := cpu.carry
  faulted := cpu.faulted
  printLength := cpu.printLength

variable {α β : Type} {cpu : Cpu} {memory : Memory} {hardware hardware' : Hardware}

/-! ### Pointers in range -/

/-- The pointers are where the processor keeps them, and what was touched last is a cell. -/
structure InRange (hardware : Hardware) : Prop where
  sp : hardware.sp.toNat ≤ 231
  ip : hardware.ip ≤ 256
  lastAccess : ∀ address, hardware.lastAccess = some address → address < 256

lemma toNat_sp (sp : StackPointer) : (UInt8.ofNat sp.val).toNat = sp.val := by
  have hsp := sp.isLt
  rw [UInt8.toNat_ofNat_of_lt']
  exact hsp.trans (by decide)

/-- A processor and its memory are in range, and nothing else is. -/
theorem inRange_iff : hardware.InRange ↔ ∃ cpu memory, hardware = of cpu memory := by
  constructor
  · intro ⟨hsp, hip, hnote⟩
    obtain ⟨note, heq⟩ : ∃ note : Option Address, note.map Fin.val = hardware.lastAccess := by
      cases h : hardware.lastAccess with
      | none => exact ⟨none, rfl⟩
      | some address => exact ⟨some ⟨address, hnote address h⟩, rfl⟩
    refine ⟨⟨hardware.general, ⟨hardware.sp.toNat, by omega⟩, ⟨hardware.ip, by omega⟩,
      hardware.zero, hardware.carry, hardware.faulted, hardware.printLength⟩,
      ⟨hardware.cells, note⟩, ?_⟩
    simp [of, heq]
  · rintro ⟨cpu, memory, rfl⟩
    refine ⟨?_, Nat.le_of_lt_succ cpu.ip.isLt, ?_⟩
    · rw [show (of cpu memory).sp = UInt8.ofNat cpu.sp.val from rfl, toNat_sp]
      exact Nat.le_of_lt_succ cpu.sp.isLt
    · intro address h
      obtain ⟨cell, -, rfl⟩ := Option.map_eq_some_iff.mp h
      exact cell.isLt

/-! ### Checks -/

lemma run_require {condition : Prop} [Decidable condition] (h : condition) (kind : FaultKind)
    (hardware : Hardware) : (require condition kind).run hardware = .ok () hardware := by
  rw [require, if_pos h]
  rfl

lemma run_require_of_not {condition : Prop} [Decidable condition] (h : ¬ condition)
    (kind : FaultKind) (hardware : Hardware) :
    (require condition kind).run hardware = .error kind hardware := by
  rw [require, if_neg h]
  rfl

/-! ### Agreement on cells -/

theorem load_of {address : ℕ} (h : address < 256) : (load address).run (of cpu memory) =
    .ok (memory.cell ⟨address, h⟩) (of cpu (memory.touch ⟨address, h⟩)) := by
  rw [load, checkAddress, run_bind_ok (run_require h _ _)]
  change EStateM.Result.ok ((memory.cells[address]?).getD 0) _ = _
  rw [Vector.getElem?_eq_getElem h]
  rfl

theorem load_of_ge {address : ℕ} (h : 256 ≤ address) :
    (load address).run hardware = .error (.memory (.accessViolation address)) hardware := by
  rw [load, checkAddress, run_bind_error (run_require_of_not (not_lt.mpr h) _ _)]

theorem store_of (address : Address) (byte : UInt8) : (store address byte).run (of cpu memory) =
    .ok () (of cpu (memory.write address byte)) := by
  rw [store, checkAddress, run_bind_ok (run_require address.isLt _ _)]
  have hset : memory.cells.setIfInBounds address byte = memory.cells.set address byte := by
    ext i hi
    rw [Vector.getElem_setIfInBounds, Vector.getElem_set]
  change EStateM.Result.ok () { of cpu memory with
    lastAccess := some address.val, cells := memory.cells.setIfInBounds address byte } = _
  rw [hset]
  rfl

theorem byteOf_of (value : Value) : (byteOf value).run (of cpu memory) =
    .ok (memory.fetch value).1 (of cpu (memory.fetch value).2) := by
  cases value with
  | literal byte => rfl
  | cell address => exact load_of address.toNat_lt

lemma run_checkRange {address count : ℕ} (h : Memory.HasRange address count)
    (hardware : Hardware) : (checkRange address count).run hardware = .ok () hardware := by
  rw [checkRange, checkAddress, run_bind_ok (run_require h.1 _ _)]
  exact run_require h.2 _ _

lemma moved_eq_copiedCells {target source count : ℕ} (h : Memory.HasRange source count) :
    moved memory.cells target source count = memory.copiedCells target source count h := by
  ext i hi
  simp only [moved, Memory.copiedCells, Vector.getElem_ofFn]
  by_cases hrange : target ≤ i ∧ i < target + count
  · have hlt : source + (i - target) < 256 := by
      have hend := h.2
      omega
    rw [if_pos hrange, dif_pos hrange, Vector.getElem?_eq_getElem hlt]
    rfl
  · rw [if_neg hrange, dif_neg hrange]
    rfl

/-- Between two ranges of memory a block is moved as a whole or not at all. -/
theorem copy_of (cpu : Cpu) (memory : Memory) {target source count : ℕ}
    (htarget : Memory.HasRange target count) (hsource : Memory.HasRange source count) :
    (copy target source count).run (of cpu memory) =
    match memory.copy target source count with
    | .ok memory' => .ok () (of cpu memory')
    | .error error => .error (.memory error) (of cpu memory) := by
  rw [copy, run_bind_ok (run_checkRange htarget _), run_bind_ok (run_checkRange hsource _),
    Memory.copy, dif_pos htarget, dif_pos hsource]
  by_cases hoverlap : Memory.Overlap target source count
  · rw [if_pos hoverlap, run_bind_error (run_require_of_not (not_not.mpr hoverlap) _ _)]
  rw [if_neg hoverlap, run_bind_ok (run_require hoverlap _ _)]
  dsimp only
  by_cases hcount : 0 < count
  · rw [if_pos hcount, dif_pos hcount, ← moved_eq_copiedCells hsource]
    rfl
  · rw [if_neg hcount, dif_neg hcount, ← moved_eq_copiedCells hsource]
    rfl

/-! ### Agreement on registers -/

lemma run_slot_of_none {number : UInt8} (h : Register.ofByte? number = none)
    (hardware : Hardware) :
    (slot number).run hardware = .error (.invalidRegister number) hardware := by
  rw [slot, h]
  rfl

lemma run_slot_of_some {number : UInt8} {register : Register}
    (h : Register.ofByte? number = some register) (hardware : Hardware) :
    (slot number).run hardware = .ok register hardware := by
  rw [slot, h]
  rfl

lemma held_of (cpu : Cpu) (memory : Memory) (register : Register) :
    ∃ byte, byte.toNat = cpu.register register ∧
      (held register).run (of cpu memory) = .ok byte (of cpu memory) := by
  cases register with
  | general index => exact ⟨_, rfl, rfl⟩
  | stackPointer => exact ⟨_, toNat_sp cpu.sp, rfl⟩

/-- Arithmetic has changed nothing when it fails. -/
theorem arithmetic_of (cpu : Cpu) (memory : Memory) (number : UInt8) (amount : ℤ) :
    (arithmetic number amount).run (of cpu memory) =
      match cpu.adjust number amount with
      | .ok cpu' => .ok () (of cpu' memory)
      | .error kind => .error kind (of cpu memory) := by
  unfold arithmetic Cpu.adjust
  cases hslot : Register.ofByte? number with
  | none => rw [run_bind_error (run_slot_of_none hslot _)]
  | some register =>
    rw [run_bind_ok (run_slot_of_some hslot _)]
    cases register with
    | general index => rfl
    | stackPointer =>
      obtain ⟨byte, hbyte, hheld⟩ := held_of cpu memory .stackPointer
      rw [run_bind_ok hheld, hbyte]
      dsimp only [Cpu.register]
      by_cases hlow : (cpu.sp.val : ℤ) + amount < 0
      · have hlow' : ¬ 0 ≤ (cpu.sp.val : ℤ) + amount := not_le.mpr hlow
        rw [if_pos hlow, checkStack,
          run_bind_error (run_bind_error (run_require_of_not hlow' _ _))]
      rw [if_neg hlow]
      by_cases hhigh : (cpu.sp.val : ℤ) + amount ≤ 231
      · have hchecked : (checkStack (cpu.sp.val + amount) .stackPointer).run (of cpu memory) =
            .ok () (of cpu memory) := by
          rw [checkStack, run_bind_ok (run_require (not_lt.mp hlow) _ _), run_require hhigh]
        have hvalue : UInt8.ofInt (cpu.sp.val + amount) =
            UInt8.ofNat (cpu.sp.val + amount).toNat := by
          rw [UInt8.ofInt, Int.emod_eq_of_lt (not_lt.mp hlow) (by omega)]
        rw [dif_pos hhigh, run_bind_ok hchecked]
        exact congrArg (fun sp => EStateM.Result.ok ()
          { of (cpu.setFlags (.ofInt (cpu.sp.val + amount))) memory with sp }) hvalue
      · rw [dif_neg hhigh, checkStack, run_bind_error]
        rw [run_bind_ok (run_require (not_lt.mp hlow) _ _), run_require_of_not hhigh]

/-! ### Agreement on texts -/

/-- So many cells from an address on have been read. -/
def noteRead (hardware : Hardware) (address count : ℕ) : Hardware :=
  { hardware with
    lastAccess := if count = 0 then hardware.lastAccess else some (address + count - 1) }

lemma noteRead_touch {address : ℕ} (h : address < 256) (count : ℕ) :
    (of cpu (memory.touch ⟨address, h⟩)).noteRead (address + 1) count =
      (of cpu memory).noteRead address (count + 1) := by
  unfold noteRead
  by_cases hcount : count = 0
  · subst hcount
    rfl
  · have hlast : address + 1 + count - 1 = address + (count + 1) - 1 := by omega
    rw [if_neg hcount, if_neg (Nat.succ_ne_zero count), hlast]
    rfl

/-- A scan reads the text and nothing behind it. -/
lemma run_scan (source remaining count : ℕ) (memory : Memory) :
    (scan source remaining count).run (of cpu memory) =
      .ok (count + ((State.of cpu memory).text remaining (source + count)).length)
        ((of cpu memory).noteRead (source + count)
          ((State.of cpu memory).text remaining (source + count)).length) := by
  induction remaining generalizing count memory with
  | zero => rfl
  | succ remaining ih =>
    unfold scan State.text
    by_cases h : source + count < 256
    · rw [if_pos h, dif_pos h, run_bind_ok (load_of h)]
      have hcell : (State.of cpu memory).cells ⟨source + count, h⟩ =
        memory.cell ⟨source + count, h⟩ := rfl
      dsimp only
      rw [hcell]
      by_cases hzero : memory.cell ⟨source + count, h⟩ = 0
      · rw [if_pos hzero, if_pos hzero]
        rfl
      · have hstate : State.of cpu (memory.touch ⟨source + count, h⟩) = State.of cpu memory :=
          State.of_congr rfl
        rw [if_neg hzero, if_neg hzero, ih, ← Nat.add_assoc, noteRead_touch, hstate,
          List.length_cons, Nat.add_assoc count, Nat.add_comm 1]
    · rw [if_neg h, dif_neg h]
      rfl

lemma run_scan_text (cpu : Cpu) (memory : Memory) (address : UInt8) :
    (scan address.toNat 24 0).run (of cpu memory) = .ok (memory.printRun address).length
      (of cpu (memory.touch (memory.printEnd address))) := by
  have hpos := memory.length_printRun_pos address
  rw [run_scan, Nat.add_zero, State.text_eq_printRun, Nat.zero_add, noteRead,
    if_neg (by omega)]
  rfl

/-! ### Agreement on instructions -/

/-- What is left in place. Work that fails has moved the note of the last access at most. -/
def outcome (cpu : Cpu) : Except FaultKind Cpu × Memory → EStateM.Result FaultKind Hardware Unit
  | (.ok cpu', memory) => .ok () (of cpu' memory)
  | (.error kind, memory) => .error kind (of cpu memory)

lemma run_outputAddress (cpu : Cpu) (memory : Memory) :
    outputAddress.run (of cpu memory) = .ok cpu.outputAddress.val (of cpu memory) :=
  congrArg (fun sp => EStateM.Result.ok (sp + 1) (of cpu memory)) (toNat_sp cpu.sp)

lemma run_adjust_goto (number : UInt8) (amount : ℤ) (next : InstructionPointer) :
    (do arithmetic number amount; goto next).run (of cpu memory) =
      outcome cpu ((cpu.adjust number amount).map ({ · with ip := next }), memory) := by
  have harithmetic := arithmetic_of cpu memory number amount
  cases hadjust : cpu.adjust number amount with
  | error kind =>
    rw [hadjust] at harithmetic
    rw [run_bind_error harithmetic]
    rfl
  | ok cpu' =>
    rw [hadjust] at harithmetic
    rw [run_bind_ok harithmetic]
    rfl

lemma run_jumpTarget (target : UInt8) (hardware : Hardware) :
    (jumpTarget target.toNat).run hardware = .ok target.toNat hardware := by
  rw [jumpTarget, run_bind_ok (run_require target.toNat_lt _ _)]
  rfl

/-- A copy of at least one byte touches its last cell, whatever was touched before. -/
lemma copy_touch (address : Address) {target source count : ℕ} (h : 0 < count) :
    (memory.touch address).copy target source count = memory.copy target source count := by
  unfold Memory.copy
  simp only [dif_pos h]
  rfl

lemma run_store_byte (target byte : UInt8) (memory : Memory) :
    (store target.toNat byte).run (of cpu memory) =
      .ok () (of cpu (memory.write (.ofByte target) byte)) := store_of (.ofByte target) byte

/-- Carried out in place, an instruction leaves what the processor makes of it. -/
theorem carryOut_of (cpu : Cpu) (memory : Memory) (next : InstructionPointer)
    (instruction : Instruction) : (carryOut next instruction).run (of cpu memory) =
      outcome cpu (cpu.perform memory next instruction) := by
  cases instruction with
  | copy target source =>
    rw [carryOut, run_bind_ok (byteOf_of source), run_bind_ok (run_store_byte target _ _)]
    rfl
  | add register amount | subtract register amount =>
    rw [carryOut, run_bind_ok (byteOf_of amount), run_adjust_goto]
    rfl
  | increment register => exact run_adjust_goto register 1 next
  | decrement register => exact run_adjust_goto register (-1) next
  | compare register amount =>
    unfold carryOut Cpu.perform
    dsimp only
    cases hslot : Register.ofByte? register with
    | none =>
      rw [run_bind_error (run_slot_of_none hslot _)]
      rfl
    | some slot =>
      obtain ⟨byte, hbyte, hheld⟩ := held_of cpu memory slot
      rw [run_bind_ok (run_slot_of_some hslot _), run_bind_ok hheld,
        run_bind_ok (byteOf_of amount), hbyte]
      rfl
  | jump condition target =>
    have hget : (get : Work Hardware).run (of cpu memory) = .ok (of cpu memory) (of cpu memory) :=
      rfl
    have hflags : condition.holds (of cpu memory).zero (of cpu memory).carry =
        condition.holds cpu.zero cpu.carry := rfl
    rw [carryOut, run_bind_ok hget, hflags, Cpu.perform]
    by_cases h : condition.holds cpu.zero cpu.carry
    · rw [if_pos h, if_pos h]
      exact run_bind_ok (run_jumpTarget target _)
    · rw [if_neg h, if_neg h]
      rfl
  | printDecimal address =>
    rw [carryOut, run_bind_ok (load_of address.toNat_lt), run_bind_ok (run_outputAddress _ _),
      run_bind_ok (store_of cpu.outputAddress _)]
    rfl
  | printText address =>
    obtain ⟨htarget, hsource⟩ := memory.hasRange_printRun cpu address
    have hcopy := copy_of cpu (memory.touch (memory.printEnd address)) htarget hsource
    rw [copy_touch _ (memory.length_printRun_pos address)] at hcopy
    rw [carryOut, run_bind_ok (run_scan_text cpu memory address),
      run_bind_ok (run_outputAddress _ _)]
    unfold Cpu.perform
    dsimp only
    cases hresult : memory.copy cpu.outputAddress address.toNat
        (memory.printRun address).length with
    | ok memory' =>
      rw [hresult] at hcopy
      rw [run_bind_ok hcopy]
      rfl
    | error error =>
      rw [hresult] at hcopy
      rw [run_bind_error hcopy]
      rfl

/-! ### Agreement on steps -/

/-- Operand bytes that an opcode does not have count as zero, and it does not look at them. -/
lemma decode?_operands (op : Opcode) (a b : UInt8) :
    Instruction.decode? op (if 0 < op.operandCount then a else 0)
      (if 1 < op.operandCount then b else 0) = Instruction.decode? op a b := by
  cases op <;> rfl

lemma run_operand {ip i : ℕ} {op : Opcode} (h : i < op.operandCount → ip + 1 + i < 256)
    (cpu : Cpu) (memory : Memory) (before : Address) :
    (operand ip op i).run (of cpu (memory.touch before)) =
      .ok (if i < op.operandCount then memory.byteAt (ip + 1 + i) else 0)
        (of cpu (memory.touch (if hi : i < op.operandCount then ⟨_, h hi⟩ else before))) := by
  unfold operand
  by_cases hi : i < op.operandCount
  · rw [if_pos hi, if_pos hi, dif_pos hi, load_of (h hi), memory.byteAt_of_lt (h hi)]
    rfl
  · rw [if_neg hi, if_neg hi, dif_neg hi]
    rfl

/-- An operand behind the last cell is missed. -/
lemma run_operand_of_ge {ip i : ℕ} {op : Opcode} (hi : i < op.operandCount)
    (h : 256 ≤ ip + 1 + i) (hardware : Hardware) : (operand ip op i).run hardware =
      .error (.memory (.accessViolation (ip + 1 + i))) hardware := by
  rw [operand, if_pos hi, load_of_ge h]

section Operands

variable {op : Opcode} {f : UInt8 → UInt8 → Work α}

/-- All operands of an instruction that fits into memory are read. -/
lemma run_operands (hinside : cpu.ip.val < 256) (hfits : cpu.ip.val + op.width ≤ 256)
    (hlast : cpu.ip.val + op.width - 1 < 256) :
    (do f (← operand cpu.ip op 0) (← operand cpu.ip op 1)).run
        (of cpu (memory.touch ⟨cpu.ip, hinside⟩)) =
      (f (if 0 < op.operandCount then memory.byteAt (cpu.ip + 1) else 0)
        (if 1 < op.operandCount then memory.byteAt (cpu.ip + 2) else 0)).run
        (of cpu (memory.touch ⟨cpu.ip + op.width - 1, hlast⟩)) := by
  have hcount : op.operandCount = op.width - 1 := rfl
  have hpos := op.width_pos
  have hle := op.width_le
  have hnote : (if _ : 1 < op.operandCount then (⟨cpu.ip + 1 + 1, by omega⟩ : Address)
      else if _ : 0 < op.operandCount then ⟨cpu.ip + 1 + 0, by omega⟩
      else ⟨cpu.ip, hinside⟩) = ⟨cpu.ip + op.width - 1, hlast⟩ := by
    split_ifs <;> exact Fin.ext (by dsimp only; omega)
  rw [run_bind_ok (run_operand (by omega) cpu memory _),
    run_bind_ok (run_operand (by omega) cpu memory _), hnote]

/-- The first operand behind memory is missed, and it would be at 256. -/
lemma run_operands_of_cut (hinside : cpu.ip.val < 256) (hcut : 256 < cpu.ip.val + op.width) :
    (do f (← operand cpu.ip op 0) (← operand cpu.ip op 1)).run
        (of cpu (memory.touch ⟨cpu.ip, hinside⟩)) =
      .error (.memory (.accessViolation 256)) (of cpu (memory.touch (Fin.last 255))) := by
  have hcount : op.operandCount = op.width - 1 := rfl
  have hle := op.width_le
  by_cases hlast : cpu.ip.val = 255
  · have hnote : (⟨cpu.ip, hinside⟩ : Address) = Fin.last 255 := Fin.ext hlast
    rw [run_bind_error (run_operand_of_ge (by omega) (by omega) _), hnote, hlast]
  · have hip : cpu.ip.val = 254 := by omega
    have hnote : (if _ : 0 < op.operandCount then (⟨cpu.ip + 1 + 0, by omega⟩ : Address)
        else ⟨cpu.ip, hinside⟩) = Fin.last 255 := by
      rw [dif_pos (by omega)]
      exact Fin.ext (by dsimp only [Fin.val_last]; omega)
    rw [run_bind_ok (run_operand (by omega) cpu memory _), hnote,
      run_bind_error (run_operand_of_ge (by omega) (by omega) _), hip]

end Operands

theorem execute_of (cpu : Cpu) (memory : Memory) : execute.run (of cpu memory) =
    match cpu.execute memory with
    | (.ok (instruction?, cpu'), memory') => .ok instruction?.isSome (of cpu' memory')
    | (.error kind, memory') => .error kind (of cpu memory') := by
  have hget : (get : Work Hardware).run (of cpu memory) = .ok (of cpu memory) (of cpu memory) :=
    rfl
  rw [execute, run_bind_ok hget, show (of cpu memory).ip = cpu.ip.val from rfl]
  unfold Cpu.execute
  by_cases hinside : cpu.ip.val < 256
  swap
  · rw [run_bind_error (run_require_of_not hinside _ _), dif_neg hinside]
  rw [run_bind_ok (run_require hinside _ _), run_bind_ok (load_of hinside), dif_pos hinside,
    memory.byteAt_of_lt hinside]
  dsimp only
  cases Opcode.ofByte? (memory.cell ⟨cpu.ip, hinside⟩) with
  | none => rfl
  | some op =>
    dsimp only
    by_cases hfits : cpu.ip.val + op.width ≤ 256
    swap
    · rw [dif_neg hfits, run_operands_of_cut hinside (not_le.mp hfits)]
    rw [dif_pos hfits, run_operands hinside hfits (by omega), decode?_operands]
    cases Instruction.decode? op (memory.byteAt (cpu.ip + 1)) (memory.byteAt (cpu.ip + 2)) with
    | none => rfl
    | some instruction =>
      dsimp only
      let next : InstructionPointer := ⟨cpu.ip + op.width, by omega⟩
      let fetched := memory.touch ⟨cpu.ip + op.width - 1, by have := op.width_pos; omega⟩
      have hcarry := carryOut_of cpu fetched next instruction
      rcases hresult : cpu.perform fetched next instruction with ⟨kind | cpu', memory'⟩
      all_goals rw [hresult] at hcarry
      · rw [run_bind_error hcarry]
        rfl
      · rw [run_bind_ok hcarry]
        rfl

/-- Taken in place, a step gives the same answer and leaves the same behind. -/
theorem step_of (cpu : Cpu) (memory : Memory) : step (of cpu memory) =
    ((cpu.step memory).1.map Option.isSome, of (cpu.step memory).2.1 (cpu.step memory).2.2) := by
  unfold step Cpu.step
  by_cases h : cpu.faulted
  · have hof : (of cpu memory).faulted = true := h
    rw [if_pos hof, if_pos h]
    rfl
  · have hof : ¬ (of cpu memory).faulted = true := h
    rw [if_neg hof, if_neg h, execute_of]
    rcases cpu.execute memory with ⟨kind | ⟨instruction?, cpu'⟩, memory'⟩
    · rfl
    · rfl

end Hardware
end Octet
