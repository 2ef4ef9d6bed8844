import Octet.Terminal.Registers
import Mathlib.Tactic

/-!
# Values on lines of their own

What a terminal shows of printed values. An escape sequence that a text leaves open hides what is
printed behind it from the terminal, and this can be the line feed that ends the value itself. The
terminal then takes itself to be in the middle of a line, and the next value comes behind a blank
one.
-/
namespace Octet

open Text (escape visible afterEscape)

/-! ### Open escape sequences -/

namespace Text

/-- An escape sequence is open at the end of a text: some escape character has no `m` behind it. -/
def Unclosed : List Char → Prop
  | [] => False
  | c :: cs => Unclosed cs ∨ c = escape ∧ 'm' ∉ cs

instance Unclosed.decidable : (cs : List Char) → Decidable (Unclosed cs)
  | [] => inferInstanceAs (Decidable False)
  | _ :: cs =>
    have := decidable cs
    inferInstanceAs (Decidable (_ ∨ _))

variable {c : Char} {cs : List Char}

lemma not_unclosed_of_not_mem (h : escape ∉ cs) : ¬ Unclosed cs := by
  induction cs with
  | nil => simp [Unclosed]
  | cons c cs ih =>
    rw [List.mem_cons, not_or] at h
    simp [Unclosed, ih h.2, Ne.symm h.1]

lemma unclosed_cons_of_ne (h : c ≠ escape) : Unclosed (c :: cs) ↔ Unclosed cs := by
  simp [Unclosed, h]

/-- The sequence that has begun ends at the first `m`, and what counts comes behind. -/
lemma unclosed_afterEscape_iff (h : 'm' ∈ cs) : Unclosed (afterEscape cs) ↔ Unclosed cs := by
  induction cs with
  | nil => simp at h
  | cons c cs ih =>
    by_cases hc : c = 'm'
    · simp [hc, afterEscape, Unclosed, escape]
    · have hcs : 'm' ∈ cs := by simpa [Ne.symm hc] using h
      simp [hc, afterEscape, Unclosed, ih hcs, hcs]

lemma afterEscape_of_not_mem (h : 'm' ∉ cs) : afterEscape cs = [] := by
  induction cs with
  | nil => simp [afterEscape]
  | cons c cs ih =>
    rw [List.mem_cons, not_or] at h
    rw [afterEscape, if_neg (Ne.symm h.1), ih h.2]

lemma afterEscape_append (as bs : List Char) : afterEscape (as ++ bs) =
    if 'm' ∈ as then afterEscape as ++ bs else afterEscape bs := by
  induction as with
  | nil => simp
  | cons c as ih =>
    by_cases hc : c = 'm'
    · simp [afterEscape, hc]
    · simp [afterEscape, hc, ih, Ne.symm hc]

/-- What shows of a text and of what follows it. A sequence that the first leaves open goes on. -/
theorem visible_append (as bs : List Char) : visible (as ++ bs) =
    visible as ++ visible (if Unclosed as then afterEscape bs else bs) := by
  fun_induction visible as with
  | case1 => simp [Unclosed]
  | case2 cs ih =>
    rw [List.cons_append, visible, if_pos rfl, afterEscape_append]
    by_cases hclose : 'm' ∈ cs
    · simp [hclose, ih, unclosed_afterEscape_iff, Unclosed]
    · simp [hclose, afterEscape_of_not_mem hclose, Unclosed, visible]
  | case3 c cs hc ih =>
    rw [List.cons_append, visible, if_neg hc, ih, List.cons_append]
    simp [unclosed_cons_of_ne hc]

/-- A line feed ends a text, unless a sequence that is open hides it. -/
lemma getLast?_visible_line (cs : List Char) : (visible (cs ++ ['\n'])).getLast? =
    if Unclosed cs then (visible cs).getLast? else some '\n' := by
  have hhidden : afterEscape ['\n'] = [] := by decide
  have hshown : visible ['\n'] = ['\n'] := visible_of_not_mem (by decide)
  rw [visible_append]
  split_ifs
  · simp [hhidden, visible]
  · simp [hshown]

end Text

/-! ### Values -/

namespace Output

/-- The line feed behind this value does not show: the text leaves a sequence open, and what shows
of it does not end in a line feed. -/
def HidesEnd (output : Output) : Prop :=
  Text.Unclosed output.display.toList ∧ visible output.display.toList ≠ [] ∧
    (visible output.display.toList).getLast? ≠ some '\n'

instance (output : Output) : Decidable output.HidesEnd := inferInstanceAs (Decidable (_ ∧ _))

/-- A value as a program can print it: a text has at most 24 characters, all of them bytes but none
of them zero. -/
def Printable : Output → Prop
  | .decimal _ => True
  | .text content => content.length ≤ 24 ∧ ∀ c ∈ content.toList, 1 ≤ c.toNat ∧ c.toNat ≤ 255

/-- A value is plain if it is written without escape characters. -/
def Plain (output : Output) : Prop := escape ∉ output.display.toList

/-- Digits are no escape characters. -/
lemma plain_decimal (byte : UInt8) : (decimal byte).Plain := by
  intro hmem
  rw [display, Nat.toString_eq_repr, Nat.toList_repr] at hmem
  have hdigit := Nat.isDigit_of_mem_toDigits (by decide) le_rfl hmem
  exact absurd hdigit (by decide)

/-- Only texts can fail to be plain. -/
lemma forall_plain_iff {outputs : List Output} : (∀ output ∈ outputs, output.Plain) ↔
    ∀ content, .text content ∈ outputs → escape ∉ content.toList := by
  constructor
  · exact fun hplain content hmem => hplain _ hmem
  · intro htexts output hmem
    cases output with
    | decimal byte => exact plain_decimal byte
    | text content => exact htexts content hmem

lemma Plain.not_hidesEnd {output : Output} (h : output.Plain) : ¬ output.HidesEnd :=
  fun hhides => Text.not_unclosed_of_not_mem h hhides.1

end Output

namespace Terminal

variable {terminal : Terminal}

lemma startLine_normal (terminal : Terminal) : terminal.startLine .normal =
    { terminal with
      lineStart := true
      out := terminal.out ++ if terminal.lineStart then "" else "\n" } := by
  have hshown : visible ['\n'] = ['\n'] := Text.visible_of_not_mem (by decide)
  obtain ⟨minimal, colored, lineStart, out, err⟩ := terminal
  cases lineStart <;> simp [startLine, print, writeOut, moveCursor, hshown]

/-- The last character that shows tells where the cursor is. -/
lemma moveCursor_eq (terminal : Terminal) (text : String) : terminal.moveCursor text =
    { terminal with
      lineStart := ((visible text.toList).getLast?.map fun c =>
        decide (c = '\n')).getD terminal.lineStart } := by
  unfold moveCursor
  cases (visible text.toList).getLast? <;> simp

/-- The cursor behind a printed value. -/
lemma moveCursor_output (h : terminal.lineStart = true) (output : Output) :
    terminal.moveCursor (output.display ++ "\n") =
      { terminal with lineStart := !decide output.HidesEnd } := by
  rw [moveCursor_eq, String.toList_append, show "\n".toList = ['\n'] from rfl,
    Text.getLast?_visible_line]
  by_cases hopen : Text.Unclosed output.display.toList
  · cases hlast : (visible output.display.toList).getLast? with
    | none =>
      have hnil := List.getLast?_eq_none_iff.mp hlast
      simp [hopen, Output.HidesEnd, hnil, h]
    | some c =>
      have hne : visible output.display.toList ≠ [] := by
        rintro hnil
        simp [hnil] at hlast
      simp [hopen, Output.HidesEnd, hlast, hne]
  · simp [hopen, Output.HidesEnd]

/-- A value comes on a new line and ends it. -/
lemma printOutput_normal (terminal : Terminal) (output : Output) :
    terminal.printOutput .normal output =
      { terminal with
        lineStart := !decide output.HidesEnd
        out := terminal.out ++ (if terminal.lineStart then "" else "\n") ++
          (output.display ++ "\n") } := by
  rw [printOutput, startLine_normal]
  exact moveCursor_output rfl output

/-- Print values one after the other, and then go to the start of a line. -/
def printOutputs (terminal : Terminal) (outputs : List Output) : Terminal :=
  (outputs.foldl (·.printOutput .normal ·) terminal).startLine .normal

lemma printOutputs_eq (terminal : Terminal) (outputs : List Output) :
    terminal.printOutputs outputs =
      { terminal with
        lineStart := true
        out := terminal.out ++ (if terminal.lineStart then "" else "\n") ++
          String.join (outputs.map fun output =>
            output.display ++ "\n" ++ if output.HidesEnd then "\n" else "") } := by
  induction outputs generalizing terminal with
  | nil => simp [printOutputs, startLine_normal]
  | cons output outputs ih =>
    rw [printOutputs, List.foldl_cons, ← printOutputs, ih, printOutput_normal]
    by_cases h : output.HidesEnd
    · simp [h, String.append_assoc]
    · simp [h, String.append_assoc]

end Terminal

/-! ### One value per line -/

/-- The hidden line feeds make themselves felt as so many further ones. -/
lemma length_join_lines (outputs : List Output) :
    (String.join (outputs.map fun output =>
        output.display ++ "\n" ++ if output.HidesEnd then "\n" else "")).length =
      (String.join (outputs.map fun output => output.display ++ "\n")).length +
        outputs.countP (·.HidesEnd) := by
  induction outputs with
  | nil => rfl
  | cons output outputs ih =>
    simp only [List.map_cons, String.join_cons, String.length_append, ih, List.countP_cons]
    by_cases h : output.HidesEnd
    · have hfeed : "\n".length = 1 := rfl
      simp only [h, hfeed, decide_true, if_true]
      omega
    · have hnothing : "".length = 0 := rfl
      simp only [h, hnothing, decide_false, if_false, Bool.false_eq_true]
      omega

/-- On a terminal at the start of a line, values are printed each on a line of its own, and nothing
but that is changed. Where the text of a value hides its own line feed, a blank line follows. So
values take one line each exactly if none of them hides its end. No value without escape characters
does. -/
theorem Terminal.outputs_take_lines {terminal : Terminal} (h : terminal.lineStart = true)
    (outputs : List Output) :
    let printed := terminal.printOutputs outputs
    printed = { terminal with out := terminal.out ++ String.join (outputs.map fun output =>
        output.display ++ "\n" ++ if output.HidesEnd then "\n" else "") } ∧
      (printed.out = terminal.out ++
          String.join (outputs.map fun output => output.display ++ "\n") ↔
        ∀ output ∈ outputs, ¬ output.HidesEnd) ∧
      ∀ output : Output, output.Plain → ¬ output.HidesEnd := by
  intro printed
  have hprinted : printed = { terminal with out := terminal.out ++ String.join (outputs.map
      fun output => output.display ++ "\n" ++ if output.HidesEnd then "\n" else "") } := by
    have hlines := terminal.printOutputs_eq outputs
    rw [if_pos h, ← h, String.append_empty] at hlines
    exact hlines
  refine ⟨hprinted, ?_, fun output => Output.Plain.not_hidesEnd⟩
  rw [hprinted]
  constructor
  · intro hout
    have hlength := congrArg String.length hout
    simp only [String.length_append, length_join_lines] at hlength
    have hcount : outputs.countP (·.HidesEnd) = 0 := by omega
    simpa [List.countP_eq_zero] using hcount
  · intro hshow
    have hlines : outputs.map (fun output =>
        output.display ++ "\n" ++ if output.HidesEnd then "\n" else "") =
          outputs.map fun output => output.display ++ "\n" :=
      List.map_congr_left fun output hmem => by simp [hshow output hmem]
    rw [hlines]

/-- The first text hides its line feed, the second one opens a sequence as well but shows a line
feed in front of it. -/
theorem Terminal.outputs_take_lines_sample :
    let outputs : List Output := [.text "a\x1b", .decimal 7, .text "\x1b[1mb\n\x1b"]
    ((Terminal.initial true false).printOutputs outputs).out = "a\x1b\n\n7\n\x1b[1mb\n\x1b\n" ∧
      ¬ ∀ output ∈ outputs, ¬ output.HidesEnd := by
  intro outputs
  have hstart : (Terminal.initial true false).lineStart = true := rfl
  obtain ⟨hprinted, hlines, -⟩ := Terminal.outputs_take_lines hstart outputs
  refine ⟨?_, fun hshow => ?_⟩
  · rw [hprinted]
    decide +kernel
  · have hout := hlines.mpr hshow
    rw [hprinted] at hout
    exact absurd hout (by decide +kernel)

/-- So values that a program can print do not always take one line each. -/
theorem Terminal.outputs_not_always_on_lines :
    ¬ ∀ (terminal : Terminal) (outputs : List Output), terminal.lineStart = true →
      (∀ output ∈ outputs, output.Printable) →
        (terminal.printOutputs outputs).out =
          terminal.out ++ String.join (outputs.map fun output => output.display ++ "\n") := by
  intro hlines
  have hprintable : ∀ output ∈ [Output.text "a\x1b", .decimal 7], output.Printable := by
    have hchars : "a\x1b".toList = ['a', escape] := rfl
    have hlength : "a\x1b".length ≤ 24 := by decide +kernel
    simp [Output.Printable, hchars, hlength, escape]
  have hout := hlines (.initial false false) [.text "a\x1b", .decimal 7] rfl hprintable
  exact absurd hout (by decide +kernel)

end Octet
