import Octet.Instruction.Mnemonic

/-!
# Opcodes

The first byte of an instruction. Where a mnemonic can take its second operand from a cell or
literally, each way has its own opcode. The assembler and the processor both take the width of an
instruction from here. Zeroed memory holds the halt marker.
-/
namespace Octet

inductive Opcode where
  | halt
  | copyCell
  | copyLiteral
  | addCell
  | addLiteral
  | subtractCell
  | subtractLiteral
  | increment
  | decrement
  | compareCell
  | compareLiteral
  | jump
  | jumpCarry
  | jumpZero
  | printText
  | printDecimal
  | jumpNoCarry
  | jumpNotZero
  deriving DecidableEq, Repr

namespace Opcode

def toByte : Opcode → UInt8
  | .halt => 0
  | .copyCell => 1
  | .copyLiteral => 2
  | .addCell => 3
  | .addLiteral => 4
  | .subtractCell => 5
  | .subtractLiteral => 6
  | .increment => 7
  | .decrement => 8
  | .compareCell => 9
  | .compareLiteral => 10
  | .jump => 11
  | .jumpCarry => 12
  | .jumpZero => 13
  | .printText => 14
  | .printDecimal => 15
  | .jumpNoCarry => 16
  | .jumpNotZero => 17

/-- Every opcode, in the order of their bytes. -/
def all : List Opcode :=
  [.halt, .copyCell, .copyLiteral, .addCell, .addLiteral, .subtractCell, .subtractLiteral,
    .increment, .decrement, .compareCell, .compareLiteral, .jump, .jumpCarry, .jumpZero,
    .printText, .printDecimal, .jumpNoCarry, .jumpNotZero]

/-- The opcode that a byte encodes, if it encodes one. -/
def ofByte? (byte : UInt8) : Option Opcode := all[byte.toNat]?

@[simp] theorem ofByte?_toByte (op : Opcode) : ofByte? op.toByte = some op := by
  cases op <;> rfl

theorem toByte_inj {a b : Opcode} : a.toByte = b.toByte ↔ a = b :=
  ⟨fun h => by simpa using congrArg ofByte? h, congrArg toByte⟩

theorem toNat_toByte_all : ∀ i : Fin all.length, all[i].toByte.toNat = i := by decide

theorem ofByte?_eq_some_iff {byte : UInt8} {op : Opcode} :
    ofByte? byte = some op ↔ byte = op.toByte := by
  constructor
  · intro h
    have hlt : byte.toNat < all.length := by
      rw [ofByte?, List.getElem?_eq_some_iff] at h
      exact h.1
    rw [ofByte?, List.getElem?_eq_getElem hlt, Option.some.injEq] at h
    rw [← UInt8.toNat_inj, ← h]
    exact (toNat_toByte_all ⟨byte.toNat, hlt⟩).symm
  · rintro rfl
    exact ofByte?_toByte op

/-- Bytes of the whole instruction, the opcode included. -/
def width : Opcode → Nat
  | .halt => 1
  | .increment | .decrement | .jump | .jumpCarry | .jumpZero | .jumpNoCarry | .jumpNotZero
  | .printText | .printDecimal => 2
  | .copyCell | .copyLiteral | .addCell | .addLiteral | .subtractCell | .subtractLiteral
  | .compareCell | .compareLiteral => 3

/-- Bytes behind the opcode. -/
def operandCount (op : Opcode) : Nat := op.width - 1

theorem width_pos (op : Opcode) : 0 < op.width := by cases op <;> decide

theorem width_le (op : Opcode) : op.width ≤ 3 := by cases op <;> decide

/-- The word that the opcode is written as. The halt marker has none. -/
def mnemonic? : Opcode → Option Mnemonic
  | .halt => none
  | .copyCell | .copyLiteral => some .cp
  | .addCell | .addLiteral => some .add
  | .subtractCell | .subtractLiteral => some .sub
  | .increment => some .inc
  | .decrement => some .dec
  | .compareCell | .compareLiteral => some .cmp
  | .jump => some .jp
  | .jumpCarry => some .jc
  | .jumpZero => some .jz
  | .jumpNoCarry => some .jnc
  | .jumpNotZero => some .jnz
  | .printText => some .prns
  | .printDecimal => some .prnd

/-- The word shown for an opcode in listings. -/
def name (op : Opcode) : String := (op.mnemonic?.map Mnemonic.name).getD "NONE"

end Opcode

end Octet
