import Octet.Assembly.Emission
import Octet.Assembly.Program
import Octet.Source.Line

/-!
# Drafts

An image under construction. The lines of a source add to it one after the other, and a label is
bound to the end that the image has when its line comes. References are resolved when all lines are
in, so a label may be used before it is declared.
-/
namespace Octet

structure Draft where
  cells : List Cell
  /-- The offset of each instruction and its line. -/
  mapping : List (Nat × Nat)
  labels : List (Label × Nat)
  deriving DecidableEq

namespace Draft

def empty : Draft := ⟨[], [], []⟩

/-- A label with the same letters in any case has been declared. -/
def Declares (draft : Draft) (label : Label) : Prop :=
  ∃ entry ∈ draft.labels, entry.1.folded = label.folded

instance (draft : Draft) (label : Label) : Decidable (draft.Declares label) :=
  inferInstanceAs (Decidable (∃ entry ∈ draft.labels, _))

/-- Bind a label to the present end of the image. -/
def declare (draft : Draft) (label : Label) (line : Nat) (span : Span) :
    Except AssemblyError Draft :=
  if draft.Declares label then .error ⟨.duplicateLabel label, line, span⟩
  else .ok { draft with labels := draft.labels ++ [(label, draft.cells.length)] }

/-- Append what a line emits. -/
def emit (draft : Draft) (line : Nat) (emission : Emission) : Draft where
  cells := draft.cells ++ emission.cells
  mapping := match emission with
    | .instruction _ _ => draft.mapping ++ [(draft.cells.length, line)]
    | .data _ => draft.mapping
  labels := draft.labels

/-- The image still fits into memory. -/
def Fits (draft : Draft) : Prop := draft.cells.length ≤ 256

instance (draft : Draft) : Decidable draft.Fits := inferInstanceAs (Decidable (_ ≤ _))

/-- Add the instruction or data of a line, if it has any. -/
def addStatement (draft : Draft) (line : Nat) : List Token → Except AssemblyError Draft
  | [] => .ok draft
  | head :: rest => do
    let draft := draft.emit line (← Emission.ofTokens line head rest)
    if draft.Fits then .ok draft else .error (AssemblyErrorKind.programTooLarge.atToken line head)

/-- The word that a line declares as a label, if its first two tokens are a word and a colon, and
the tokens behind. -/
def splitDeclaration : List Token → Option Token × List Token
  | word :: colon :: rest =>
    if word.kind = .word ∧ colon.kind = .colon then (some word, rest)
    else (none, word :: colon :: rest)
  | tokens => (none, tokens)

/-- Add the tokens of a line. -/
def addTokens (draft : Draft) (line : Nat) (tokens : List Token) : Except AssemblyError Draft :=
  match splitDeclaration tokens with
  | (none, rest) => draft.addStatement line rest
  | (some word, rest) =>
    match Label.ofChars? word.text with
    | none => .error (AssemblyErrorKind.malformed.atToken line word)
    | some label => do (← draft.declare label line word.span).addStatement line rest

def addLine (draft : Draft) (line : SourceLine) : Except AssemblyError Draft :=
  draft.addTokens line.number line.tokens

/-- The draft of a whole source, or the error of its first faulty line. -/
def ofSource (source : List Char) : Except AssemblyError Draft :=
  (SourceLine.ofSource source).foldlM addLine empty

/-- The byte of a cell, once the offsets of all labels are known. -/
def resolveCell (labels : List (Label × Nat)) : Cell → Except AssemblyError UInt8
  | .byte value => .ok value
  | .reference use =>
    match labels.lookup use.label with
    | none => .error ⟨.undefinedLabel use.label, use.line, use.span⟩
    | some offset =>
      if offset < 256 then .ok (UInt8.ofNat offset)
      else .error ⟨.labelOutOfRange use.label, use.line, use.span⟩

/-- Fill in every reference, in the order of the image. -/
def resolve (draft : Draft) : Except AssemblyError Program := do
  let code ← draft.cells.mapM (resolveCell draft.labels)
  return ⟨code, draft.mapping, draft.labels⟩

end Draft

/-- Assemble a source. -/
def assemble (source : String) : Except AssemblyError Program := do
  (← Draft.ofSource source.toList).resolve

end Octet
