import Octet.Proofs.Tokens

/-!
# Cursors

A machine cuts a line with a cursor that moves over one character at a time. At the end of the line
it reads a NUL, which may as well stand in the line, and the length of a token is a difference of
byte counts. Offsets are kept in a counter that may not go beyond some limit. If the end of the line
is within the limit, then the cursor finds the tokens of the line, and no sum or difference fails.
-/
namespace Octet

open Text Token

/-- The characters ahead, and how many bytes were ahead when the present token began. -/
structure Cursor where
  bytes : ℕ
  chars : List Char

namespace Cursor

def ofLine (line : List Char) : Cursor := ⟨byteLength line, line⟩

/-- The next character, or a NUL if there is none. -/
def first (cursor : Cursor) : Char := cursor.chars.headD '\x00'

def isAtEnd (cursor : Cursor) : Bool := cursor.chars.isEmpty

/-- Move over the next character, if there is one. -/
def bump (cursor : Cursor) : Option Char × Cursor :=
  (cursor.chars.head?, { cursor with chars := cursor.chars.tail })

/-- Move on while the next character is in a class. -/
def skipWhile (p : Char → Bool) (cursor : Cursor) : Cursor :=
  if p cursor.first && !cursor.isAtEnd then cursor.bump.2.skipWhile p else cursor
termination_by cursor.chars.length
decreasing_by
  obtain ⟨bytes, cs⟩ := cursor
  cases cs with
  | nil => simp_all [isAtEnd]
  | cons c cs => simp [bump]

/-- Move behind the next `close`, and tell whether there was one. -/
def skipThrough (close : Char) (cursor : Cursor) : Bool × Cursor :=
  let (closed, cursor) := (cursor.skipWhile (· != close)).bump
  (closed.isSome, cursor)

/-- Move behind the quote that ends a quotation of one character or more. -/
def skipQuoted (quote : Char) (cursor : Cursor) : Bool × Cursor :=
  match cursor.bump with
  | (none, cursor) => (false, cursor)
  | (some _, cursor) => cursor.skipThrough quote

/-- Move over a token and tell its kind. There is none at the end of the line. -/
def advance (cursor : Cursor) : Option (TokenKind × Cursor) :=
  match cursor.bump with
  | (none, _) => none
  | (some c, cursor) => some <|
    if c = ';' then (.comment, cursor.skipWhile fun _ => true)
    else if isBlank c then (.blank, cursor.skipWhile isBlank)
    else if c = ':' then (.colon, cursor)
    else if c = ',' then (.comma, cursor)
    else if c = '[' then (cursor.skipThrough ']').map .address id
    else if c = '"' then (cursor.skipQuoted '"').map .text id
    else if c = '\'' then (cursor.skipQuoted '\'').map .character id
    else if startsWord c then (.word, cursor.skipWhile continuesWord)
    else (.unknown, cursor)

/-- The length of the token in bytes, if no more bytes are ahead than there were. -/
def length? (cursor : Cursor) : Option ℕ :=
  if byteLength cursor.chars ≤ cursor.bytes then some (cursor.bytes - byteLength cursor.chars)
  else none

/-- Begin a token. -/
def settle (cursor : Cursor) : Cursor := ofLine cursor.chars

/-! ### What a cursor moves over -/

section Moves

variable (bytes : ℕ) (cs : List Char)

lemma skipWhile_eq (p : Char → Bool) :
    skipWhile p ⟨bytes, cs⟩ = ⟨bytes, cs.dropWhile p⟩ := by
  induction cs with
  | nil =>
    -- The class may hold the NUL that is read here.
    rw [skipWhile, if_neg (by simp [isAtEnd]), List.dropWhile_nil]
  | cons c cs ih =>
    rw [skipWhile, List.dropWhile_cons]
    split_ifs with hmove hc hc
    · exact ih
    · simp [first, hc] at hmove
    · simp [first, isAtEnd, hc] at hmove
    · rfl

lemma skipThrough_eq (kind : Bool → TokenKind) (close : Char) :
    (skipThrough close ⟨bytes, cs⟩).map kind id =
      ((Scan.through kind close cs).kind, ⟨bytes, (Scan.through kind close cs).rest⟩) := by
  rw [skipThrough, skipWhile_eq, Scan.through]
  cases cs.dropWhile (· != close) <;> rfl

lemma skipQuoted_eq (kind : Bool → TokenKind) (quote : Char) :
    (skipQuoted quote ⟨bytes, cs⟩).map kind id =
      ((Scan.quoted kind quote cs).kind, ⟨bytes, (Scan.quoted kind quote cs).rest⟩) := by
  cases cs with
  | nil => rfl
  | cons c cs => exact skipThrough_eq bytes cs kind quote

/-- A cursor moves over what a scan finds. -/
theorem advance_cons (c : Char) :
    advance ⟨bytes, c :: cs⟩ = some ((scan c cs).kind, ⟨bytes, (scan c cs).rest⟩) := by
  simp only [advance, bump, List.head?_cons, List.tail_cons, skipWhile_eq, skipThrough_eq,
    skipQuoted_eq, scan, Option.some.injEq]
  split_ifs <;> simp [Scan.run]

lemma advance_of_lexeme {kind : TokenKind} {text rest : List Char} (h : Lexeme kind text rest) :
    advance ⟨bytes, text ++ rest⟩ = some (kind, ⟨bytes, rest⟩) := by
  obtain ⟨c, body, rfl⟩ := List.exists_cons_of_ne_nil h.ne_nil
  rw [List.cons_append, advance_cons, scan_of_lexeme h]

end Moves

lemma length_advance_lt {cursor next : Cursor} {kind : TokenKind}
    (h : cursor.advance = some (kind, next)) : next.chars.length < cursor.chars.length := by
  obtain ⟨bytes, cs⟩ := cursor
  cases cs with
  | nil => cases h
  | cons c cs =>
    rw [advance_cons] at h
    cases h
    exact Nat.lt_succ_of_le (length_rest_le c cs)

/-! ### Cutting a line -/

/-- The kinds and spans of the tokens ahead, if every offset stays within the limit. -/
def tokens? (limit offset : ℕ) (cursor : Cursor) : Option (List (TokenKind × Span)) :=
  match _ : cursor.advance with
  | none => some []
  | some (kind, next) => do
    let length ← next.length?
    if offset + length ≤ limit then
      return (kind, ⟨offset, length⟩) :: (← next.settle.tokens? limit (offset + length))
    else none
termination_by cursor.chars.length
decreasing_by
  have hlt : next.chars.length < cursor.chars.length := length_advance_lt ‹_›
  exact hlt

lemma tokens?_of_advance {cursor next : Cursor} {kind : TokenKind} {length limit offset : ℕ}
    (h : cursor.advance = some (kind, next)) (hlength : next.length? = some length)
    (hlimit : offset + length ≤ limit) : cursor.tokens? limit offset =
      (next.settle.tokens? limit (offset + length)).map ((kind, ⟨offset, length⟩) :: ·) := by
  rw [tokens?]
  split
  · next hnone => simp [hnone] at h
  · next kind' next' hsome =>
    cases hsome.symm.trans h
    simp only [hlength, Option.bind_eq_bind, Option.bind_some, if_pos hlimit, Option.map_eq_bind]
    rfl

end Cursor

/-- A cursor cuts a line into its tokens. -/
theorem Segments.tokens?_ofLine {line : List Char} {limit offset : ℕ} {tokens : List Token}
    (h : Segments line offset tokens) (hlimit : offset + byteLength line ≤ limit) :
    (Cursor.ofLine line).tokens? limit offset =
      some (tokens.map fun token => (token.kind, token.span)) := by
  induction h with
  | nil offset =>
    rw [Cursor.tokens?]
    rfl
  | @cons kind text rest offset tokens lexeme _ ih =>
    have hadvance := Cursor.advance_of_lexeme (byteLength (text ++ rest)) lexeme
    have hlength : Cursor.length? ⟨byteLength (text ++ rest), rest⟩ = some (byteLength text) := by
      simp [Cursor.length?]
    rw [byteLength_append, ← Nat.add_assoc] at hlimit
    rw [Cursor.ofLine, Cursor.tokens?_of_advance hadvance hlength (by omega), Cursor.settle,
      ih hlimit]
    rfl

end Octet
