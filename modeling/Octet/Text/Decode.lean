/-!
# Bytes as text

Bytes that are no UTF-8 can still be shown. Every stretch of bytes that starts a character without
completing it, and every byte that starts none, is shown as one replacement character.
-/
namespace Octet.Text

/-- The ranges of the bytes that have to follow a first byte, or nothing if no character starts with
that byte. The ranges leave out surrogates, code points that are too large, and code points that
have a shorter form. -/
def following? (first : UInt8) : Option (List (UInt8 × UInt8)) :=
  let any : UInt8 × UInt8 := (0x80, 0xbf)
  if first < 0x80 then some []
  else if first < 0xc2 then none
  else if first < 0xe0 then some [any]
  else if first < 0xf0 then
    some [(if first = 0xe0 then 0xa0 else 0x80, if first = 0xed then 0x9f else 0xbf), any]
  else if first < 0xf5 then
    some [(if first = 0xf0 then 0x90 else 0x80, if first = 0xf4 then 0x8f else 0xbf), any, any]
  else none

/-- How many bytes lie in the ranges, up to the first one that does not. -/
def countIn : List (UInt8 × UInt8) → List UInt8 → Nat
  | (low, high) :: ranges, b :: bs => if low ≤ b && b ≤ high then countIn ranges bs + 1 else 0
  | _, _ => 0

/-- The text that bytes are shown as. -/
def decode : List UInt8 → List Char
  | [] => []
  | b :: bs =>
    let count := countIn ((following? b).getD []) bs
    match String.fromUTF8? ⟨(b :: bs.take count).toArray⟩ with
    | some text => text.toList ++ decode (bs.drop count)
    | none => '\ufffd' :: decode (bs.drop count)
termination_by bytes => bytes.length
decreasing_by all_goals (simp only [List.length_drop, List.length_cons]; omega)

end Octet.Text
