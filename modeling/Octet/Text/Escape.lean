/-!
# Escape sequences

Styled text carries sequences that start with the escape character and end with the letter `m`. They
show no character themselves.
-/
namespace Octet.Text

def escape : Char := '\x1b'

/-- What is left behind the end of an escape sequence, which has begun already. -/
def afterEscape : List Char → List Char
  | [] => []
  | c :: cs => if c = 'm' then cs else afterEscape cs

theorem length_afterEscape_le (cs : List Char) : (afterEscape cs).length ≤ cs.length := by
  induction cs with
  | nil => simp [afterEscape]
  | cons c cs ih =>
    unfold afterEscape
    split
    · simp
    · exact Nat.le_succ_of_le ih

/-- The characters that show. A sequence that is never closed hides the rest. -/
def visible : List Char → List Char
  | [] => []
  | c :: cs => if c = escape then visible (afterEscape cs) else c :: visible cs
termination_by cs => cs.length
decreasing_by
  · have := length_afterEscape_le cs
    simp only [List.length_cons]
    omega
  · simp

theorem visible_of_not_mem {cs : List Char} (h : escape ∉ cs) : visible cs = cs := by
  induction cs with
  | nil => simp [visible]
  | cons c cs ih =>
    rw [List.mem_cons, not_or] at h
    rw [visible, if_neg (Ne.symm h.1), ih h.2]

/-- The colours of words and traces. -/
inductive Color where
  | red
  | green
  | blue
  | cyan
  deriving DecidableEq, Repr

def Color.start : Color → String
  | .red => "\x1b[31m"
  | .green => "\x1b[32m"
  | .blue => "\x1b[34m"
  | .cyan => "\x1b[36m"

/-- The sequence that ends every style. -/
def stop : String := "\x1b[0m"

/-- Put `insertion` behind every end of style. -/
def afterStops (insertion : List Char) : List Char → List Char
  | '\x1b' :: '[' :: '0' :: 'm' :: cs => stop.toList ++ insertion ++ afterStops insertion cs
  | c :: cs => c :: afterStops insertion cs
  | [] => []

/-- Show a text in a colour, as the library `colored` does it. The colour is taken up again wherever
the text itself ends a style. -/
def Color.paint (color : Color) (text : String) : String :=
  color.start ++ String.ofList (afterStops color.start.toList text.toList) ++ stop

end Octet.Text
