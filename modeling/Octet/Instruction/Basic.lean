import Octet.Instruction.Opcode

/-!
# Instructions

What the opcode and the operand bytes behind it ask for. Registers are named by a byte here, since a
byte that names none is found out only when the instruction is carried out.
-/
namespace Octet

/-- A byte given literally, or the byte that a cell holds. -/
inductive Value where
  | literal (byte : UInt8)
  | cell (address : UInt8)
  deriving DecidableEq, Repr

/-- When a jump is taken. -/
inductive Condition where
  | always
  | carry
  | noCarry
  | zero
  | notZero
  deriving DecidableEq, Repr

def Condition.holds (zero carry : Bool) : Condition → Bool
  | .always => true
  | .carry => carry
  | .noCarry => !carry
  | .zero => zero
  | .notZero => !zero

inductive Instruction where
  /-- Put a byte into a cell. -/
  | copy (target : UInt8) (source : Value)
  | add (register : UInt8) (amount : Value)
  | subtract (register : UInt8) (amount : Value)
  | increment (register : UInt8)
  | decrement (register : UInt8)
  /-- Set the flags as a subtraction would. -/
  | compare (register : UInt8) (amount : Value)
  | jump (condition : Condition) (target : UInt8)
  /-- Print a cell as a number. -/
  | printDecimal (address : UInt8)
  /-- Print the cells from an address on as characters. -/
  | printText (address : UInt8)
  deriving DecidableEq, Repr

namespace Instruction

/-- The instruction with this opcode and these operand bytes, of which a short one ignores the
second. -/
def decode? (op : Opcode) (a b : UInt8) : Option Instruction :=
  match op with
  | .halt => none
  | .copyCell => some (.copy a (.cell b))
  | .copyLiteral => some (.copy a (.literal b))
  | .addCell => some (.add a (.cell b))
  | .addLiteral => some (.add a (.literal b))
  | .subtractCell => some (.subtract a (.cell b))
  | .subtractLiteral => some (.subtract a (.literal b))
  | .increment => some (.increment a)
  | .decrement => some (.decrement a)
  | .compareCell => some (.compare a (.cell b))
  | .compareLiteral => some (.compare a (.literal b))
  | .jump => some (.jump .always a)
  | .jumpCarry => some (.jump .carry a)
  | .jumpNoCarry => some (.jump .noCarry a)
  | .jumpZero => some (.jump .zero a)
  | .jumpNotZero => some (.jump .notZero a)
  | .printDecimal => some (.printDecimal a)
  | .printText => some (.printText a)

/-- Only the halt marker is no instruction. -/
theorem decode?_eq_none_iff {op : Opcode} {a b : UInt8} : decode? op a b = none ↔ op = .halt := by
  cases op <;> simp [decode?]

end Instruction

end Octet
