import Octet.Source.Label

/-!
# Programs

An image ready to be loaded at address 0, with the lines that its instructions come from and the
offsets of its labels. Both tables are in the order of the source.
-/
namespace Octet

structure Program where
  code : List UInt8
  /-- The offset of each instruction and its line. -/
  mapping : List (Nat × Nat)
  labels : List (Label × Nat)
  deriving DecidableEq

namespace Program

/-- An image whose source is not known. -/
def ofImage (code : List UInt8) : Program := ⟨code, [], []⟩

/-- The line of the instruction that starts at an offset. -/
def lineOf? (program : Program) (offset : Nat) : Option Nat := program.mapping.lookup offset

end Program

end Octet
