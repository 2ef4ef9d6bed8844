import Octet.Assembly.Operand
import Octet.Instruction.Opcode

/-!
# Emissions

What one line puts into the image: an instruction or data. Only instructions are recorded in the
table of lines.
-/
namespace Octet

inductive Emission where
  | instruction (op : Opcode) (operands : List Cell)
  | data (cells : List Cell)
  deriving DecidableEq

def Emission.cells : Emission → List Cell
  | .instruction op operands => .byte op.toByte :: operands
  | .data cells => cells

/-- The accepted forms. The kind of the second operand decides between the two opcodes of a
mnemonic. -/
def Mnemonic.encode? : Mnemonic → List Operand → Option Emission
  | .db, [.number cell] => some (.data [cell])
  | .db, [.text bytes] => some (.data (bytes.map .byte))
  | .cp, [.address a, .number b] => some (.instruction .copyLiteral [a, b])
  | .cp, [.address a, .address b] => some (.instruction .copyCell [a, b])
  | .add, [.address a, .number b] => some (.instruction .addLiteral [a, b])
  | .add, [.address a, .address b] => some (.instruction .addCell [a, b])
  | .sub, [.address a, .number b] => some (.instruction .subtractLiteral [a, b])
  | .sub, [.address a, .address b] => some (.instruction .subtractCell [a, b])
  | .cmp, [.address a, .number b] => some (.instruction .compareLiteral [a, b])
  | .cmp, [.address a, .address b] => some (.instruction .compareCell [a, b])
  | .inc, [.address a] => some (.instruction .increment [a])
  | .dec, [.address a] => some (.instruction .decrement [a])
  | .prnd, [.address a] => some (.instruction .printDecimal [a])
  | .prns, [.address a] => some (.instruction .printText [a])
  | .jp, [.number a] => some (.instruction .jump [a])
  | .jc, [.number a] => some (.instruction .jumpCarry [a])
  | .jnc, [.number a] => some (.instruction .jumpNoCarry [a])
  | .jz, [.number a] => some (.instruction .jumpZero [a])
  | .jnz, [.number a] => some (.instruction .jumpNotZero [a])
  | _, _ => none

/-- The error of this kind at a token of a line. -/
def AssemblyErrorKind.atToken (kind : AssemblyErrorKind) (line : Nat) (token : Token) :
    AssemblyError :=
  ⟨kind, line, token.span⟩

namespace Emission

/-- Emit for a mnemonic that stands at `head` and has these operand tokens. Their number is checked
first, then each of them, and then whether they make an accepted form. -/
def ofOperands (line : Nat) (head : Token) (mnemonic : Mnemonic) (operands : List Token) :
    Except AssemblyError Emission :=
  match operands[mnemonic.arity]? with
  | some extra => .error ((AssemblyErrorKind.tooManyArguments mnemonic).atToken line extra)
  | none =>
    let unsupported := (AssemblyErrorKind.unsupportedOperands mnemonic).atToken line head
    if operands.length < mnemonic.arity then .error unsupported
    else do
      let operands ← operands.mapM fun token =>
        (Operand.ofToken line token).mapError (·.atToken line token)
      (mnemonic.encode? operands).elim (.error unsupported) .ok

/-- Emit for the tokens of a line behind its label. The first is the mnemonic. Whether it names an
instruction is asked only when the operands are known to be separated properly. -/
def ofTokens (line : Nat) (head : Token) (rest : List Token) : Except AssemblyError Emission :=
  if head.kind != .word || !Mnemonic.hasShape head.text then
    .error (AssemblyErrorKind.malformed.atToken line head)
  else
    match Operand.splitTokens rest with
    | .error token => .error (AssemblyErrorKind.malformed.atToken line token)
    | .ok operands =>
      match Mnemonic.ofChars? head.text with
      | none =>
        .error ((AssemblyErrorKind.invalidInstruction (String.ofList head.text)).atToken line head)
      | some mnemonic => ofOperands line head mnemonic operands

end Emission

end Octet
