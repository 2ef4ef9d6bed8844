import Octet.Source.Token

/-!
# Source lines

The lines of a source with their numbers, which count from zero, and the offsets at which they
start. A line feed belongs to no line and takes one byte.
-/
namespace Octet

structure SourceLine where
  number : Nat
  offset : Nat
  chars : List Char
  deriving DecidableEq, Repr

namespace SourceLine

/-- Number consecutive lines from a given one on. -/
def locate (number offset : Nat) : List (List Char) → List SourceLine
  | [] => []
  | cs :: rest => ⟨number, offset, cs⟩ :: locate (number + 1) (offset + Text.byteLength cs + 1) rest

/-- All lines of a source. -/
def ofSource (source : List Char) : List SourceLine := locate 0 0 (Text.splitLines source)

/-- The tokens of a line but blanks and comments. -/
def tokens (line : SourceLine) : List Token :=
  (tokenize line.chars line.offset).filter Token.isSignificant

end SourceLine

end Octet
