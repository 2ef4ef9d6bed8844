/-!
# Numerals

The five ways to write a number: `200`, `200d`, `0xA4`, `0o48` and `101b`. A marker in front wins
over a marker behind. After the marker the leading digits that are valid in the base count, and what
follows them is ignored, so `0o48` is octal 4. A numeral without a marker holds digits only.
-/
namespace Octet.Numeral

/-- No numeral exceeds this magnitude; larger ones denote it. -/
def limit : Nat := 0x7FFFFFFFFFFFFFFF

/-- The value of a digit in any base up to sixteen, if it is one in this base. -/
def digitValue? (base : Nat) (c : Char) : Option Nat :=
  let value? : Option Nat :=
    if '0' ≤ c ∧ c ≤ '9' then some (c.toNat - '0'.toNat)
    else if 'a' ≤ c ∧ c ≤ 'f' then some (c.toNat - 'a'.toNat + 10)
    else if 'A' ≤ c ∧ c ≤ 'F' then some (c.toNat - 'A'.toNat + 10)
    else none
  value?.filter (· < base)

/-- The values of the leading characters that are digits in this base. -/
def leadingDigits (base : Nat) : List Char → List Nat
  | [] => []
  | c :: cs =>
    match digitValue? base c with
    | some digit => digit :: leadingDigits base cs
    | none => []

/-- Read digits, the most significant first, without ever passing `limit`. -/
def magnitude (base : Nat) (digits : List Nat) : Nat :=
  digits.foldl (fun value digit => min (value * base + digit) limit) 0

/-- At least one digit is needed. -/
def unsigned? (base : Nat) (cs : List Char) : Option Nat :=
  match leadingDigits base cs with
  | [] => none
  | digits => some (magnitude base digits)

/-- One sign may stand before the digits. -/
def signed? (base : Nat) : List Char → Option Int
  | '-' :: cs => (unsigned? base cs).map fun n => -(n : Int)
  | '+' :: cs => (unsigned? base cs).map Int.ofNat
  | cs => (unsigned? base cs).map Int.ofNat

/-- Decimal digits, at least one, with at most one sign before them. -/
def isDecimal (cs : List Char) : Bool :=
  let digits := match cs with
    | '-' :: cs => cs
    | '+' :: cs => cs
    | cs => cs
  !digits.isEmpty && digits.all Char.isDigit

/-- The base that the marker stands for, and the numeral without its marker. -/
def split? : List Char → Option (Nat × List Char)
  | '0' :: 'x' :: cs => some (16, cs)
  | '0' :: 'o' :: cs => some (8, cs)
  | cs =>
    if cs.getLast? = some 'b' then some (2, cs.dropLast)
    else if cs.getLast? = some 'd' then some (10, cs.dropLast)
    else if isDecimal cs then some (10, cs)
    else none

/-- The number that a text denotes, if it is a numeral. -/
def value? (cs : List Char) : Option Int :=
  (split? cs).bind fun (base, digits) => signed? base digits

end Octet.Numeral
