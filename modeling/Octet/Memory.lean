/-!
# Memory

256 cells of one byte each, all zero at first, and a note of which cell was touched last. The note
is there for inspection only. Addresses and counts from outside may be any natural number, and an
operation on them either succeeds as a whole or leaves cells and note as they were.
-/
namespace Octet

/-- There are 256 cells. -/
abbrev Address := Fin 256

/-- Every byte is an address. -/
def Address.ofByte (byte : UInt8) : Address := ⟨byte.toNat, byte.toNat_lt⟩

@[simp] theorem Address.val_ofByte (byte : UInt8) : (Address.ofByte byte).val = byte.toNat := rfl

inductive MemoryError where
  /-- The address, or a range that starts there, is not inside memory. -/
  | accessViolation (address : Nat)
  /-- The two ranges of a copy share a cell. -/
  | overlappingCopy (target source count : Nat)
  deriving DecidableEq, Repr

def MemoryError.message : MemoryError → String
  | .accessViolation address => s!"Memory access violation at {address}"
  | .overlappingCopy target source count =>
    s!"Memory access violation at {target}: cannot copy {count} bytes " ++
      s!"from overlapping address {source}"

structure Memory where
  cells : Vector UInt8 256
  /-- The cell touched last, if any was since the start. -/
  lastAccess : Option Address
  deriving DecidableEq

namespace Memory

/-- Memory at the start. -/
def initial : Memory := ⟨Vector.replicate 256 0, none⟩

/-- Clear all cells and forget the last access. -/
def reset (memory : Memory) : Memory :=
  { memory with cells := Vector.replicate 256 0, lastAccess := none }

/-- Nothing outlasts a reset. -/
@[simp] theorem reset_eq (memory : Memory) : memory.reset = initial := rfl

/-- Look at a cell without touching it. -/
def cell (memory : Memory) (address : Address) : UInt8 := memory.cells[address]

/-- The byte at an address, and 0 outside memory. -/
def byteAt (memory : Memory) (address : Nat) : UInt8 := (memory.cells[address]?).getD 0

theorem byteAt_of_lt (memory : Memory) {address : Nat} (h : address < 256) :
    memory.byteAt address = memory.cell ⟨address, h⟩ := by simp [byteAt, cell, h]

/-- Note an access. -/
def touch (memory : Memory) (address : Address) : Memory :=
  { memory with lastAccess := some address }

/-- Change a cell, which touches it. -/
def write (memory : Memory) (address : Address) (byte : UInt8) : Memory :=
  ⟨memory.cells.set address byte, some address⟩

@[simp] theorem cell_initial (address : Address) : initial.cell address = 0 := by
  simp [initial, cell]

@[simp] theorem cell_touch (memory : Memory) (a b : Address) :
    (memory.touch a).cell b = memory.cell b := rfl

@[simp] theorem cells_touch (memory : Memory) (a : Address) :
    (memory.touch a).cells = memory.cells := rfl

@[simp] theorem lastAccess_touch (memory : Memory) (a : Address) :
    (memory.touch a).lastAccess = some a := rfl

@[simp] theorem cell_write (memory : Memory) (a b : Address) (byte : UInt8) :
    (memory.write a byte).cell b = if a = b then byte else memory.cell b := by
  simp only [write, cell, Fin.getElem_fin, Vector.getElem_set]
  congr 1
  exact propext Fin.ext_iff.symm

@[simp] theorem lastAccess_write (memory : Memory) (a : Address) (byte : UInt8) :
    (memory.write a byte).lastAccess = some a := rfl

/-- Two memories with the same cells and the same note are the same. -/
theorem ext_cell {m n : Memory} (cells : ∀ a, m.cell a = n.cell a)
    (note : m.lastAccess = n.lastAccess) : m = n := by
  obtain ⟨_, _⟩ := m
  obtain ⟨_, _⟩ := n
  congr 1
  exact Vector.ext fun i h => cells ⟨i, h⟩

/-- The bytes of up to `count` cells from an address on. -/
def slice (memory : Memory) (start count : Nat) : List UInt8 :=
  (memory.cells.toList.drop start).take count

def load (memory : Memory) (address : Nat) : Except MemoryError (UInt8 × Memory) :=
  if h : address < 256 then .ok (memory.cell ⟨address, h⟩, memory.touch ⟨address, h⟩)
  else .error (.accessViolation address)

def store (memory : Memory) (address : Nat) (byte : UInt8) : Except MemoryError Memory :=
  if h : address < 256 then .ok (memory.write ⟨address, h⟩ byte)
  else .error (.accessViolation address)

/-- A range has to start inside memory, even an empty one, and may end where memory ends. -/
def HasRange (address count : Nat) : Prop := address < 256 ∧ address + count ≤ 256

instance (address count : Nat) : Decidable (HasRange address count) :=
  inferInstanceAs (Decidable (_ ∧ _))

/-- Some cell belongs to both ranges of this length. -/
def Overlap (target source count : Nat) : Prop :=
  0 < count ∧ source < target + count ∧ target < source + count

instance (target source count : Nat) : Decidable (Overlap target source count) :=
  inferInstanceAs (Decidable (_ ∧ _))

theorem overlap_iff {target source count : Nat} : Overlap target source count ↔
    ∃ a, (target ≤ a ∧ a < target + count) ∧ source ≤ a ∧ a < source + count := by
  constructor
  · rintro ⟨hc, hs, ht⟩
    exact ⟨max target source, by omega, by omega⟩
  · rintro ⟨a, ha, hb⟩
    exact ⟨by omega, by omega, by omega⟩

/-- The cells after a copy. -/
def copiedCells (memory : Memory) (target source count : Nat)
    (range : HasRange source count) : Vector UInt8 256 :=
  Vector.ofFn fun a : Address =>
    if h : target ≤ a.val ∧ a.val < target + count then
      memory.cell ⟨source + (a.val - target), by have := range.2; omega⟩
    else memory.cell a

/-- Copy a block of cells to a place that it does not overlap. An empty block touches nothing. -/
def copy (memory : Memory) (target source count : Nat) : Except MemoryError Memory :=
  if htarget : HasRange target count then
    if hsource : HasRange source count then
      if Overlap target source count then .error (.overlappingCopy target source count)
      else
        let note := if h : 0 < count then
            some ⟨target + count - 1, by have := htarget.2; omega⟩
          else memory.lastAccess
        .ok ⟨memory.copiedCells target source count hsource, note⟩
    else .error (.accessViolation source)
  else .error (.accessViolation target)

/-- Put an image into the first cells. This is no access, and the cells behind the image stay. -/
def loadImage (memory : Memory) (image : List UInt8) : Except MemoryError Memory :=
  if image.length ≤ 256 then
    .ok { memory with cells := Vector.ofFn fun a => (image[a.val]?).getD (memory.cell a) }
  else .error (.accessViolation (image.length - 1))

end Memory

end Octet
