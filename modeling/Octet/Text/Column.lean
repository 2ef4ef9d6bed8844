/-!
# Columns

Texts filled up with a character to a least width, and hexadecimal numbers of at least two digits.
-/
namespace Octet.Text

def padLeft (width : Nat) (fill : Char) (s : String) : String :=
  String.ofList (List.replicate (width - s.length) fill) ++ s

def padRight (width : Nat) (fill : Char) (s : String) : String :=
  s ++ String.ofList (List.replicate (width - s.length) fill)

/-- Lower-case hexadecimal digits, at least two of them. -/
def hexByte (n : Nat) : String := padLeft 2 '0' (String.ofList (Nat.toDigits 16 n))

end Octet.Text
