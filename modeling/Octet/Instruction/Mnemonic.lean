/-!
# Mnemonics

The words that name what a line asks for: thirteen instructions and the data directive.
-/
namespace Octet

inductive Mnemonic where
  | db | cp | add | sub | inc | dec | cmp | jp | jc | jnc | jz | jnz | prnd | prns
  deriving DecidableEq, Repr

namespace Mnemonic

def all : List Mnemonic :=
  [.db, .cp, .add, .sub, .inc, .dec, .cmp, .jp, .jc, .jnc, .jz, .jnz, .prnd, .prns]

def name : Mnemonic → String
  | .db => "DB"
  | .cp => "CP"
  | .add => "ADD"
  | .sub => "SUB"
  | .inc => "INC"
  | .dec => "DEC"
  | .cmp => "CMP"
  | .jp => "JP"
  | .jc => "JC"
  | .jnc => "JNC"
  | .jz => "JZ"
  | .jnz => "JNZ"
  | .prnd => "PRND"
  | .prns => "PRNS"

/-- How many operands the word takes. -/
def arity : Mnemonic → Nat
  | .cp | .add | .sub | .cmp => 2
  | _ => 1

theorem arity_pos (mnemonic : Mnemonic) : 0 < mnemonic.arity := by cases mnemonic <;> decide

/-- Words with the shape of a mnemonic: two to four letters. -/
def hasShape (cs : List Char) : Bool :=
  2 ≤ cs.length && cs.length ≤ 4 && cs.all Char.isAlpha

/-- A mnemonic is recognised in any letter case. -/
def ofChars? (cs : List Char) : Option Mnemonic :=
  all.find? fun mnemonic => mnemonic.name.toList = cs.map Char.toUpper

end Mnemonic

end Octet
