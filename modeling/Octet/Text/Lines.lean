/-!
# Lines

A text is read in two ways. The assembler cuts it at line feeds only, so that every character has a
line and a byte offset. A report shows it in lines that end in a line feed or in a carriage return
and a line feed, and a line end that closes the text opens no further line.
-/
namespace Octet.Text

/-- Length in bytes of the UTF-8 form. -/
def byteLength : List Char → Nat
  | [] => 0
  | c :: cs => c.utf8Size + byteLength cs

@[simp] theorem byteLength_nil : byteLength [] = 0 := rfl

@[simp] theorem byteLength_cons (c : Char) (cs : List Char) :
    byteLength (c :: cs) = c.utf8Size + byteLength cs := rfl

@[simp] theorem byteLength_append (as bs : List Char) :
    byteLength (as ++ bs) = byteLength as + byteLength bs := by
  induction as with
  | nil => simp
  | cons c cs ih => simp [ih, Nat.add_assoc]

theorem utf8ByteSize_ofList (cs : List Char) : (String.ofList cs).utf8ByteSize = byteLength cs := by
  induction cs with
  | nil => rfl
  | cons c cs ih =>
    have h : String.ofList (c :: cs) = String.singleton c ++ String.ofList cs := by
      rw [← String.toList_inj]
      simp
    simp [h, ih]

/-- The pieces between separators. There is one more of them than there are separators. -/
def pieces (separator : Char) (cs : List Char) : List (List Char) :=
  cs.foldr (fun c ps => if c = separator then [] :: ps else ps.modifyHead (c :: ·)) [[]]

/-- The pieces between line feeds. -/
def splitLines (cs : List Char) : List (List Char) := pieces '\n' cs

@[simp] theorem splitLines_nil : splitLines [] = [[]] := rfl

@[simp] theorem splitLines_newline (cs : List Char) :
    splitLines ('\n' :: cs) = [] :: splitLines cs :=
  rfl

theorem splitLines_cons {c : Char} (h : c ≠ '\n') (cs : List Char) :
    splitLines (c :: cs) = (splitLines cs).modifyHead (c :: ·) := if_neg h

/-- Without the carriage return that belongs to a line end. -/
def dropReturn (piece : List Char) : List Char :=
  if piece.getLast? = some '\r' then piece.dropLast else piece

/-- The lines as a reader sees them. -/
def shownLines (cs : List Char) : List (List Char) :=
  let pieces := splitLines cs
  let last := pieces.getLastD []
  pieces.dropLast.map dropReturn ++ if last = [] then [] else [last]

end Octet.Text
