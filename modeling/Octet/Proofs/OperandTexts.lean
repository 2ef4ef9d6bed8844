import Octet.Proofs.Denotation

/-!
# Operand texts

What a text stands for as an operand, bare or in brackets. Labels may end in the letters that mark a
numeral and may hold nothing but hexadecimal digits, and still no label is read as a number. So the
two grammars can be tried in either order, and every text falls into just one of four classes.
-/
namespace Octet

open Numeral

lemma Numeral.value?_eq_none_iff {cs : List Char} :
    value? cs = none ↔ ∀ sign magnitude, ¬ Denotes cs sign magnitude := by
  rw [Option.eq_none_iff_forall_ne_some]
  constructor
  · intro hnone sign magnitude hdenotes
    exact hnone _ (value?_eq_some_iff.mpr ⟨sign, magnitude, hdenotes, rfl⟩)
  · intro hno n hvalue
    obtain ⟨sign, magnitude, hdenotes, _⟩ := value?_eq_some_iff.mp hvalue
    exact hno sign magnitude hdenotes

/-! ### The order of trials -/

/-- The opposite order: a text is tried as a numeral first, and as a label only if it is none. -/
def Cell.ofCharsNumberFirst (role : NumberRole) (line : ℕ) (span : Span) (cs : List Char) :
    Except AssemblyErrorKind Cell :=
  match value? cs with
  | some n => (byteOfNumber role n).map .byte
  | none =>
    match Label.ofChars? cs with
    | some label => .ok (.reference ⟨label, line, span⟩)
    | none => .error .invalidNumber

variable {cs : List Char} {role : NumberRole} {line : ℕ} {span : Span}

theorem Cell.ofChars_eq_numberFirst :
    Cell.ofChars role line span cs = Cell.ofCharsNumberFirst role line span cs := by
  unfold ofChars ofCharsNumberFirst
  cases hlabel : Label.ofChars? cs with
  | some label =>
    have hchars : label.chars = cs := Label.ofChars?_eq_some_iff.mp hlabel
    rw [value?_of_isLabel (hchars ▸ label.valid)]
  | none => cases value? cs <;> rfl

/-! ### Four classes -/

/-- What a text is as an operand. -/
inductive Reading where
  | label (label : Label)
  | byte (value : UInt8)
  /-- A number that no byte can hold. -/
  | outOfRange
  /-- Neither a label nor a number. -/
  | invalid

namespace Reading

/-- Labels are told by their grammar, and numbers by the integer that they denote, of any size. -/
def Fits (cs : List Char) : Reading → Prop
  | .label l => l.chars = cs
  | .byte value => ∃ sign magnitude, Denotes cs sign magnitude ∧ sign * magnitude = value.toNat
  | .outOfRange => ∃ sign magnitude, Denotes cs sign magnitude ∧
      ¬ (0 ≤ sign * magnitude ∧ sign * magnitude ≤ 255)
  | .invalid => isLabel cs = false ∧ ∀ sign magnitude, ¬ Denotes cs sign magnitude

/-- The cell that a text makes. A number out of range is reported by the role it was to play. -/
def cell (role : NumberRole) (line : ℕ) (span : Span) : Reading → Except AssemblyErrorKind Cell
  | .label l => .ok (.reference ⟨l, line, span⟩)
  | .byte value => .ok (.byte value)
  | .outOfRange => .error (.outOfRange role)
  | .invalid => .error .invalidNumber

lemma cell_injective (role : NumberRole) (line : ℕ) (span : Span) :
    Function.Injective (cell role line span) := by
  intro a b h
  cases a <;> cases b <;> simp_all [cell]

theorem exists_fits (cs : List Char) : ∃ reading : Reading, reading.Fits cs := by
  by_cases hlabel : isLabel cs = true
  · exact ⟨.label ⟨cs, hlabel⟩, rfl⟩
  by_cases hnumber : ∃ sign magnitude, Denotes cs sign magnitude
  · obtain ⟨sign, magnitude, hdenotes⟩ := hnumber
    by_cases hrange : 0 ≤ sign * magnitude ∧ sign * magnitude ≤ 255
    · obtain ⟨value, hvalue⟩ := denotesByte_iff.mp ⟨sign, magnitude, hdenotes, hrange⟩
      exact ⟨.byte value, value?_eq_byte_iff.mp hvalue⟩
    · exact ⟨.outOfRange, sign, magnitude, hdenotes, hrange⟩
  · exact ⟨.invalid, by simpa using hlabel, fun sign magnitude h => hnumber ⟨sign, magnitude, h⟩⟩

/-- Saturation keeps a number out of range. -/
lemma byteOfNumber_of_outside {sign : ℤ} {magnitude : ℕ} (hdenotes : Denotes cs sign magnitude)
    (houtside : ¬ (0 ≤ sign * magnitude ∧ sign * magnitude ≤ 255)) (role : NumberRole) :
    ∃ n, value? cs = some n ∧ byteOfNumber role n = .error (.outOfRange role) := by
  refine ⟨_, value?_eq_some_iff.mpr ⟨sign, magnitude, hdenotes, rfl⟩, if_neg ?_⟩
  obtain ⟨_, _, _, _, _, hsigned, _⟩ := hdenotes
  have hlimit : limit = 2 ^ 63 - 1 := rfl
  cases hsigned <;> omega

/-- The cell of a text is that of each class it is in. -/
theorem Fits.ofChars {reading : Reading} (h : reading.Fits cs) :
    Cell.ofChars role line span cs = reading.cell role line span := by
  cases reading with
  | label l => exact Cell.ofChars_ok_iff.mpr ⟨.label l, h, rfl⟩
  | byte value => exact Cell.ofChars_byte_iff.mpr (value?_eq_byte_iff.mpr h)
  | outOfRange =>
    obtain ⟨sign, magnitude, hdenotes, houtside⟩ := h
    obtain ⟨n, hvalue, hbyte⟩ := byteOfNumber_of_outside hdenotes houtside role
    rw [Cell.ofChars_eq_numberFirst, Cell.ofCharsNumberFirst, hvalue]
    dsimp only
    rw [hbyte]
    rfl
  | invalid =>
    obtain ⟨hlabel, hnumber⟩ := h
    rw [Cell.ofChars, Label.ofChars?_eq_none_iff.mpr hlabel, value?_eq_none_iff.mpr hnumber]
    rfl

/-- Classes differ in the cells that they make, so no text is in two of them. -/
theorem Fits.unique {a b : Reading} (ha : a.Fits cs) (hb : b.Fits cs) : a = b := by
  have hcells : a.cell .number 0 ⟨0, 0⟩ = b.cell .number 0 ⟨0, 0⟩ :=
    ha.ofChars.symm.trans hb.ofChars
  exact cell_injective _ _ _ hcells

end Reading

/-- No text is both a label and a numeral, and so nothing depends on which of the two is tried
first. Every text is exactly one of a label, a byte, a number out of range and nothing of these, and
this alone decides what it makes as an operand, bare and in brackets. -/
theorem labels_and_numbers_are_apart (cs : List Char) :
    (isLabel cs = true → value? cs = none) ∧
    (∀ role line span,
      Cell.ofChars role line span cs = Cell.ofCharsNumberFirst role line span cs) ∧
    ∃ reading : Reading, (∀ other : Reading, other.Fits cs ↔ other = reading) ∧
      ∀ line offset : ℕ,
        let word : Token := ⟨.word, cs, offset⟩
        let address : Token := ⟨.address true, '[' :: (cs ++ [']']), offset⟩
        Operand.ofToken line word = (reading.cell .number line word.span).map .number ∧
        Operand.ofToken line address = (reading.cell .address line address.span).map .address := by
  refine ⟨value?_of_isLabel, fun _ _ _ => Cell.ofChars_eq_numberFirst, ?_⟩
  obtain ⟨reading, hfits⟩ := Reading.exists_fits cs
  refine ⟨reading, fun other => ⟨fun hother => hother.unique hfits, ?_⟩, fun line offset => ?_⟩
  · rintro rfl
    exact hfits
  · have hinner : Token.inner ⟨.address true, '[' :: (cs ++ [']']), offset⟩ = cs := by
      simp [Token.inner]
    simp only [Operand.ofToken, hinner, hfits.ofChars, and_self]

/-- A label of hexadecimal digits that ends like a binary number. -/
theorem labels_and_numbers_are_apart_sample :
    isLabel ['c', 'a', 'b'] = true ∧ value? ['c', 'a', 'b'] = none ∧
      Cell.ofCharsNumberFirst .address 0 ⟨4, 5⟩ ['c', 'a', 'b'] =
        .ok (.reference ⟨⟨['c', 'a', 'b'], rfl⟩, 0, ⟨4, 5⟩⟩) := by
  obtain ⟨hnone, horder, -⟩ := labels_and_numbers_are_apart ['c', 'a', 'b']
  exact ⟨rfl, hnone rfl, (horder .address 0 ⟨4, 5⟩).symm.trans rfl⟩

end Octet
