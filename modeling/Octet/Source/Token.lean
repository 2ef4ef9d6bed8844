import Octet.Source.Span
import Octet.Text.Lines

/-!
# Tokens of one source line

The first character of what remains of a line decides the kind of the next token and how far it
reaches. No character is lost and none is refused: what starts no other token is a token of its own.
-/
namespace Octet

inductive TokenKind where
  /-- Mnemonics, labels, registers and bare numbers. -/
  | word
  /-- Brackets and what stands between them. -/
  | address (terminated : Bool)
  /-- Text in double quotes. -/
  | text (terminated : Bool)
  /-- A character in single quotes. -/
  | character (terminated : Bool)
  | colon
  | comma
  | comment
  | blank
  | unknown
  deriving DecidableEq, Repr

structure Token where
  kind : TokenKind
  text : List Char
  offset : Nat
  deriving DecidableEq, Repr

namespace Token

def span (token : Token) : Span := ⟨token.offset, Text.byteLength token.text⟩

/-- The text without its first and last character, which enclose an address or a literal. -/
def inner (token : Token) : List Char := token.text.tail.dropLast

/-- Blanks within a line. A carriage return is one, so that either line end can be used. -/
def isBlank (c : Char) : Bool := c == ' ' || c == '\t' || c == '\r'

/-- Digits and `+` may start a word, so that a number is read as one token. -/
def startsWord (c : Char) : Bool := c == '.' || c == '+' || c.isAlphanum

def continuesWord (c : Char) : Bool := c.isAlphanum || c == '_'

/-- A scan gives the kind of a token, its further characters and what follows them. -/
structure Scan where
  kind : TokenKind
  body : List Char
  rest : List Char

/-- The longest run of characters in a class. -/
def Scan.run (kind : TokenKind) (p : Char → Bool) (cs : List Char) : Scan :=
  ⟨kind, cs.takeWhile p, cs.dropWhile p⟩

/-- All up to and including the first `close`, or all there is if none comes. -/
def Scan.through (kind : Bool → TokenKind) (close : Char) (cs : List Char) : Scan :=
  match cs.dropWhile (· != close) with
  | [] => ⟨kind false, cs, []⟩
  | c :: rest => ⟨kind true, cs.takeWhile (· != close) ++ [c], rest⟩

/-- A quotation holds at least one character, so that `'''` is a quoted quote. -/
def Scan.quoted (kind : Bool → TokenKind) (quote : Char) : List Char → Scan
  | [] => ⟨kind false, [], []⟩
  | c :: cs =>
    let scan := Scan.through kind quote cs
    { scan with body := c :: scan.body }

/-- The token that starts with `c` where `cs` follows. -/
def scan (c : Char) (cs : List Char) : Scan :=
  if c = ';' then ⟨.comment, cs, []⟩
  else if isBlank c then Scan.run .blank isBlank cs
  else if c = ':' then ⟨.colon, [], cs⟩
  else if c = ',' then ⟨.comma, [], cs⟩
  else if c = '[' then Scan.through .address ']' cs
  else if c = '"' then Scan.quoted .text '"' cs
  else if c = '\'' then Scan.quoted .character '\'' cs
  else if startsWord c then Scan.run .word continuesWord cs
  else ⟨.unknown, [], cs⟩

theorem Scan.run_append (kind : TokenKind) (p : Char → Bool) (cs : List Char) :
    (Scan.run kind p cs).body ++ (Scan.run kind p cs).rest = cs :=
  List.takeWhile_append_dropWhile

theorem Scan.through_append (kind : Bool → TokenKind) (close : Char) (cs : List Char) :
    (Scan.through kind close cs).body ++ (Scan.through kind close cs).rest = cs := by
  have h := List.takeWhile_append_dropWhile (p := (· != close)) (l := cs)
  unfold Scan.through
  split
  · simp
  · next heq => rw [heq] at h; simpa using h

theorem Scan.quoted_append (kind : Bool → TokenKind) (quote : Char) (cs : List Char) :
    (Scan.quoted kind quote cs).body ++ (Scan.quoted kind quote cs).rest = cs := by
  cases cs with
  | nil => rfl
  | cons c cs => simp [Scan.quoted, Scan.through_append]

/-- A scan splits what follows the first character. -/
theorem scan_append (c : Char) (cs : List Char) : (scan c cs).body ++ (scan c cs).rest = cs := by
  unfold scan
  repeat' split
  all_goals simp [Scan.run_append, Scan.through_append, Scan.quoted_append]

theorem length_rest_le (c : Char) (cs : List Char) : (scan c cs).rest.length ≤ cs.length := by
  have h := congrArg List.length (scan_append c cs)
  simp only [List.length_append] at h
  omega

end Token

/-- Cut a line into tokens. `offset` is where the line starts in the source. -/
def tokenize (line : List Char) (offset : Nat) : List Token :=
  match line with
  | [] => []
  | c :: cs =>
    let token : Token := ⟨(Token.scan c cs).kind, c :: (Token.scan c cs).body, offset⟩
    token :: tokenize (Token.scan c cs).rest token.span.stop
termination_by line.length
decreasing_by
  have := Token.length_rest_le c cs
  simp only [List.length_cons]
  omega

/-- No character is lost. -/
theorem flatMap_text_tokenize (line : List Char) (offset : Nat) :
    (tokenize line offset).flatMap Token.text = line := by
  fun_induction tokenize line offset with
  | case1 => rfl
  | case2 offset c cs token ih => simp [token, ih, Token.scan_append]

/-- The tokens that carry meaning. -/
def Token.isSignificant (token : Token) : Bool := token.kind != .blank && token.kind != .comment

end Octet
