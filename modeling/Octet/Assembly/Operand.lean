import Octet.Assembly.Error
import Octet.Source.Numeral
import Octet.Source.Token

/-!
# Operands

Every operand is one token. What it stands for is known at once, but for labels, which may be
declared further down. A label leaves a reference in the image to be filled in at the end.
-/
namespace Octet

/-- A use of a label, and where it stands. -/
structure Reference where
  label : Label
  line : Nat
  span : Span
  deriving DecidableEq

/-- One cell of an image whose labels are not known yet. -/
inductive Cell where
  | byte (value : UInt8)
  | reference (use : Reference)
  deriving DecidableEq

inductive Operand where
  /-- A label, a number or a character. -/
  | number (cell : Cell)
  /-- A label or a number in brackets. -/
  | address (cell : Cell)
  /-- A quoted text. -/
  | text (bytes : List UInt8)
  deriving DecidableEq

/-- Characters up to code point 255 fit into a byte. -/
def byteOfChar (c : Char) : Except AssemblyErrorKind UInt8 :=
  if c.toNat < 256 then .ok (UInt8.ofNat c.toNat) else .error (.nonByteChar c)

/-- Numbers from 0 to 255 fit into a byte. -/
def byteOfNumber (role : NumberRole) (n : Int) : Except AssemblyErrorKind UInt8 :=
  if 0 ≤ n ∧ n < 256 then .ok (UInt8.ofNat n.toNat) else .error (.outOfRange role)

/-- What looks like a label is one, and anything else has to be a numeral. -/
def Cell.ofChars (role : NumberRole) (line : Nat) (span : Span) (cs : List Char) :
    Except AssemblyErrorKind Cell :=
  match Label.ofChars? cs with
  | some label => .ok (.reference ⟨label, line, span⟩)
  | none =>
    match Numeral.value? cs with
    | some n => (byteOfNumber role n).map .byte
    | none => .error .invalidNumber

namespace Operand

/-- Tokens that can stand as an operand. Brackets and quotes have to be closed. -/
def isToken (token : Token) : Bool :=
  match token.kind with
  | .word | .address true | .text true | .character true => true
  | _ => false

/-- What an operand token on a given line stands for. -/
def ofToken (line : Nat) (token : Token) : Except AssemblyErrorKind Operand :=
  match token.kind with
  | .word => (Cell.ofChars .number line token.span token.text).map .number
  | .address true => (Cell.ofChars .address line token.span token.inner).map .address
  | .text true => (token.inner.mapM byteOfChar).map .text
  | .character true =>
    match token.inner with
    | [c] => (byteOfChar c).map fun byte => .number (.byte byte)
    | _ => .error .multiCharLiteral
  | _ => .error .malformed

/-- The operand tokens among tokens that should be operands separated by commas, or the first token
that is out of place. A comma that nothing follows is out of place itself. -/
def splitTokens : List Token → Except Token (List Token)
  | [] => .ok []
  | [token] => if isToken token then .ok [token] else .error token
  | token :: separator :: rest =>
    if !isToken token then .error token
    else if separator.kind != .comma || rest.isEmpty then .error separator
    else (splitTokens rest).map (token :: ·)

end Operand

end Octet
