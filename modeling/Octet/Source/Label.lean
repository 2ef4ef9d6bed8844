/-!
# Labels

A label starts with a letter or a dot and goes on with letters, digits and underscores. Labels are
looked up as they are written, but two labels that differ in case only may not both be declared.
-/
namespace Octet

/-- The grammar of labels. -/
def isLabel : List Char → Bool
  | [] => false
  | c :: cs => (c == '.' || c.isAlpha) && cs.all fun d => d.isAlphanum || d == '_'

structure Label where
  chars : List Char
  valid : isLabel chars = true
  deriving DecidableEq

namespace Label

def ofChars? (cs : List Char) : Option Label :=
  if h : isLabel cs = true then some ⟨cs, h⟩ else none

theorem ofChars?_eq_none_iff {cs : List Char} : ofChars? cs = none ↔ isLabel cs = false := by
  simp [ofChars?]

theorem ofChars?_eq_some_iff {cs : List Char} {label : Label} :
    ofChars? cs = some label ↔ label.chars = cs := by
  obtain ⟨chars, valid⟩ := label
  constructor
  · intro h
    unfold ofChars? at h
    split at h
    · cases h; rfl
    · cases h
  · rintro rfl
    exact dif_pos valid

def name (label : Label) : String := String.ofList label.chars

/-- Labels collide if their folded forms are equal. -/
def folded (label : Label) : List Char := label.chars.map Char.toUpper

end Label

end Octet
