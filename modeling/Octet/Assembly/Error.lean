import Octet.Diagnostic
import Octet.Instruction.Mnemonic
import Octet.Source.Label
import Octet.Source.Span

/-!
# Assembly errors

Why a source was rejected, and where. The first error ends assembly, and nothing of the program is
kept.
-/
namespace Octet

/-- What a number out of range was meant to be. -/
inductive NumberRole where
  | number
  | address
  deriving DecidableEq, Repr

def NumberRole.name : NumberRole → String
  | .number => "number"
  | .address => "address"

inductive AssemblyErrorKind where
  /-- A token stands where it cannot. -/
  | malformed
  | invalidInstruction (word : String)
  /-- The operands fit no form of the instruction, in their kinds or because some are missing. -/
  | unsupportedOperands (mnemonic : Mnemonic)
  | tooManyArguments (mnemonic : Mnemonic)
  | invalidNumber
  | outOfRange (role : NumberRole)
  | multiCharLiteral
  | nonByteChar (c : Char)
  | duplicateLabel (label : Label)
  | undefinedLabel (label : Label)
  | labelOutOfRange (label : Label)
  | programTooLarge
  deriving DecidableEq

structure AssemblyError where
  kind : AssemblyErrorKind
  /-- The line, counted from zero. -/
  line : Nat
  span : Span
  deriving DecidableEq

namespace AssemblyErrorKind

def message : AssemblyErrorKind → String
  | .malformed => "Syntax error"
  | .invalidInstruction word => s!"Invalid instruction: {word}"
  | .unsupportedOperands mnemonic =>
    if mnemonic.arity = 1 then s!"{mnemonic.name} does not support this operand"
    else s!"{mnemonic.name} does not support these operands"
  | .tooManyArguments mnemonic => s!"{mnemonic.name}: too many arguments"
  | .invalidNumber => "Invalid number format"
  | .outOfRange role => s!"{role.name} must have a value between 0-255"
  | .multiCharLiteral => "Only one character is allowed. Use String instead"
  | .nonByteChar c => s!"Character '{c}' does not fit into a byte"
  | .duplicateLabel label => s!"Duplicate label: {label.name}"
  | .undefinedLabel label => s!"Undefined label: {label.name}"
  | .labelOutOfRange label => s!"Label points outside of memory: {label.name}"
  | .programTooLarge => "Program does not fit into memory"

def code : AssemblyErrorKind → String
  | .malformed => "parse::syntax"
  | .invalidInstruction _ => "parse::instruction"
  | .unsupportedOperands _ | .tooManyArguments _ => "parse::operands"
  | .invalidNumber | .outOfRange _ | .multiCharLiteral | .nonByteChar _ => "parse::bad_lit"
  | .duplicateLabel _ => "parse::duplicate_label"
  | .undefinedLabel _ | .labelOutOfRange _ => "backpatch::label"
  | .programTooLarge => "emit::too_large"

def help : AssemblyErrorKind → String
  | .malformed =>
    "lines hold an optional `label:`, a mnemonic and up to two comma-separated operands"
  | .invalidInstruction _ =>
    "available instructions: DB CP ADD SUB INC DEC CMP JP JC JNC JZ JNZ PRND PRNS"
  | .unsupportedOperands _ | .tooManyArguments _ =>
    "check the operands allowed for this instruction"
  | .invalidNumber => "allowed formats: 200, 200d, 0xA4, 0o48, 101b"
  | .outOfRange _ => "values must fit into a single byte"
  | .multiCharLiteral | .nonByteChar _ => "use a string literal in double quotes for text"
  | .duplicateLabel _ => "labels may only be declared once per file, regardless of case"
  | .undefinedLabel _ => "declare the label with `name:` somewhere in the file"
  | .labelOutOfRange _ | .programTooLarge =>
    "the whole program must fit into 256 bytes of memory"

/-- What is said about the marked stretch of the source. -/
def spanLabel : AssemblyErrorKind → String
  | .malformed => "unexpected token"
  | .invalidInstruction _ => "unknown instruction"
  | .unsupportedOperands _ => "invalid operands"
  | .tooManyArguments _ => "extra operand"
  | .invalidNumber | .outOfRange _ | .multiCharLiteral | .nonByteChar _ => "incorrect literal"
  | .duplicateLabel _ => "duplicate label"
  | .undefinedLabel _ | .labelOutOfRange _ => "label used here"
  | .programTooLarge => "overflowing instruction"

end AssemblyErrorKind

def AssemblyError.diagnostic (error : AssemblyError) : Diagnostic :=
  ⟨error.kind.message, some error.kind.code, some error.kind.help⟩

end Octet
