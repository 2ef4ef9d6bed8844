import Octet.Proofs.OutputLines

/-!
# Styled traces

What shows of a trace does not depend on how it is styled. A coloured text carries sequences of its
own in front, behind, and wherever the text itself ends a style, and each of them is whole where it
begins or closes what the text has left open. In minimal mode all sequences are dropped. So all
modes show the same and leave the cursor in the same place, call after call.
-/
namespace Octet

open Text (escape visible)

namespace Text

variable {insertion : List Char}

/-! ### Coloured texts -/

/-- No sequence is left in what shows. -/
lemma escape_not_mem_visible (cs : List Char) : escape ∉ visible cs := by
  fun_induction visible cs with
  | case1 => simp
  | case2 cs ih => exact ih
  | case3 c cs hc ih => simpa [Ne.symm hc] using ih

lemma visible_escape (cs : List Char) : visible (escape :: cs) = visible (afterEscape cs) := by
  rw [visible, if_pos rfl]

lemma afterEscape_stop (cs : List Char) : afterEscape (stop.toList ++ cs) = cs := rfl

lemma visible_stop (cs : List Char) : visible (stop.toList ++ cs) = visible cs :=
  visible_escape _

lemma visible_start (color : Color) (cs : List Char) :
    visible (color.start.toList ++ cs) = visible cs := by
  cases color <;> exact visible_escape _

/-- A sequence put behind every end of style does not show. It comes where no sequence is open,
since the end of a style closes the one in which it stands. -/
lemma visible_afterStops (h : ∀ cs, visible (insertion ++ cs) = visible cs) (cs : List Char) :
    visible (afterStops insertion cs) = visible cs ∧
      visible (afterEscape (afterStops insertion cs)) = visible (afterEscape cs) := by
  fun_induction afterStops insertion cs with
  | case1 cs ih =>
    rw [List.append_assoc, visible_stop, afterEscape_stop, h]
    exact ⟨ih.1.trans (visible_stop cs).symm, ih.1⟩
  | case2 c cs _ ih =>
    refine ⟨?_, ?_⟩
    · by_cases hc : c = escape
      · rw [hc, visible_escape, visible_escape, ih.2]
      · rw [visible, if_neg hc, ih.1, visible, if_neg hc]
    · by_cases hc : c = 'm'
      · rw [afterEscape, if_pos hc, ih.1, afterEscape, if_pos hc]
      · rw [afterEscape, if_neg hc, ih.2, afterEscape, if_neg hc]
  | case3 => exact ⟨rfl, rfl⟩

/-- The end of a style closes whatever the text in front of it has left open. -/
lemma not_unclosed_append_stop (cs : List Char) : ¬ Unclosed (cs ++ stop.toList) := by
  induction cs with
  | nil => decide
  | cons c cs ih =>
    rintro (hrest | ⟨-, hopen⟩)
    · exact ih hrest
    · exact hopen (List.mem_append_right cs (by decide))

variable (color : Color) (text : String)

lemma toList_paint : (color.paint text).toList =
    color.start.toList ++ (afterStops color.start.toList text.toList ++ stop.toList) := by
  simp [Color.paint]

lemma not_unclosed_paint : ¬ Unclosed (color.paint text).toList := by
  rw [toList_paint, ← List.append_assoc]
  exact not_unclosed_append_stop _

/-- A coloured text shows the same characters as the text. -/
lemma visible_paint : visible (color.paint text).toList = visible text.toList := by
  have hstop : visible stop.toList = [] := by decide +kernel
  have hrest : visible (afterEscape stop.toList) = [] := by decide +kernel
  rw [toList_paint, visible_start, visible_append,
    (visible_afterStops (visible_start color) text.toList).1]
  split_ifs
  · rw [hrest, List.append_nil]
  · rw [hstop, List.append_nil]

end Text

/-! ### Calls -/

/-- The ways in which something is put among the traces that are shown in every mode. -/
inductive TraceCall where
  | text (content : String)
  | newLine
  | value (output : Output)
  deriving DecidableEq, Repr

/-- The line feed that is needed to go to the start of a line. -/
def lineFeed (lineStart : Bool) : List Char := if lineStart then [] else ['\n']

/-- What shows of a call. It depends on where the cursor is, but on no mode. -/
def TraceCall.shown (lineStart : Bool) : TraceCall → List Char
  | text content => visible content.toList
  | newLine => lineFeed lineStart
  | value output => lineFeed lineStart ++ visible (output.display ++ "\n").toList

namespace Terminal

def trace (terminal : Terminal) : TraceCall → Terminal
  | .text content => terminal.print .always content
  | .newLine => terminal.startLine .always
  | .value output => terminal.printOutput .always output

def traceAll (terminal : Terminal) (calls : List TraceCall) : Terminal := calls.foldl trace terminal

/-- How a text is written among the traces, in the mode of the terminal. -/
def traced (terminal : Terminal) (text : String) : String :=
  if terminal.minimal then String.ofList (visible text.toList) else terminal.decorate text

section Texts

variable (terminal : Terminal) (text : String)

lemma print_always :
    terminal.print .always text = (terminal.writeErr (terminal.traced text)).moveCursor text := by
  unfold print traced
  cases terminal.minimal <;> rfl

lemma escape_not_mem_traced (h : terminal.minimal = true) :
    escape ∉ (terminal.traced text).toList := by
  rw [traced, if_pos h, String.toList_ofList]
  exact Text.escape_not_mem_visible _

/-- In every mode the same shows of a text. -/
lemma visible_traced : visible (terminal.traced text).toList = visible text.toList := by
  unfold traced decorate
  split_ifs
  · rw [String.toList_ofList]
    exact Text.visible_of_not_mem (Text.escape_not_mem_visible _)
  · exact Text.visible_paint _ _
  · rfl

/-- A text without open sequences is written without open sequences. -/
lemma not_unclosed_traced (h : ¬ Text.Unclosed text.toList) :
    ¬ Text.Unclosed (terminal.traced text).toList := by
  unfold traced decorate
  split_ifs
  · rw [String.toList_ofList]
    exact Text.not_unclosed_of_not_mem (Text.escape_not_mem_visible _)
  · exact Text.not_unclosed_paint _ _
  · exact h

end Texts

/-- From one terminal to the other, `written` has been added to the traces, and `shown` is what
shows of it. The cursor is where that leaves it. -/
structure Writes (before after : Terminal) (written : String) (shown : List Char) : Prop where
  err : after.err = before.err ++ written
  visible_eq : visible written.toList = shown
  lineStart : after.lineStart =
    (shown.getLast?.map fun c => decide (c = '\n')).getD before.lineStart
  minimal : after.minimal = before.minimal
  plain : before.minimal = true → escape ∉ written.toList

section Writing

variable {before middle after left right : Terminal} {written written' : String}
  {shown shown' : List Char}

lemma Writes.nothing (terminal : Terminal) : terminal.Writes terminal "" [] where
  err := by simp
  visible_eq := Text.visible_of_not_mem (by simp)
  lineStart := rfl
  minimal := rfl
  plain := by simp

lemma writes_print (terminal : Terminal) (text : String) :
    terminal.Writes (terminal.print .always text) (terminal.traced text) (visible text.toList) := by
  rw [print_always, moveCursor_eq]
  exact
    { err := rfl
      visible_eq := terminal.visible_traced text
      lineStart := rfl
      minimal := rfl
      plain := terminal.escape_not_mem_traced text }

/-- If the first text leaves no sequence open, then what shows of both is what shows of each. -/
lemma Writes.append (h : before.Writes middle written shown)
    (h' : middle.Writes after written' shown') (hclosed : ¬ Text.Unclosed written.toList) :
    before.Writes after (written ++ written') (shown ++ shown') where
  err := by rw [h'.err, h.err, String.append_assoc]
  visible_eq := by
    rw [String.toList_append, Text.visible_append, if_neg hclosed, h.visible_eq, h'.visible_eq]
  lineStart := by
    rw [h'.lineStart, h.lineStart, List.getLast?_append]
    cases shown'.getLast? <;> rfl
  minimal := h'.minimal.trans h.minimal
  plain hminimal := by
    rw [String.toList_append, List.mem_append, not_or]
    exact ⟨h.plain hminimal, h'.plain (h.minimal.trans hminimal)⟩

/-- To go to the start of a line leaves no sequence open. -/
lemma exists_writes_startLine (terminal : Terminal) :
    ∃ written, terminal.Writes (terminal.startLine .always) written (lineFeed terminal.lineStart) ∧
      ¬ Text.Unclosed written.toList := by
  unfold startLine lineFeed
  split_ifs
  · exact ⟨"", Writes.nothing terminal, by simp [Text.Unclosed]⟩
  · have hshown : visible "\n".toList = ['\n'] := Text.visible_of_not_mem (by decide)
    exact ⟨_, hshown ▸ terminal.writes_print "\n", terminal.not_unclosed_traced _ (by decide)⟩

/-- What a call writes shows what it has to show. -/
theorem exists_writes_trace (terminal : Terminal) (call : TraceCall) :
    ∃ written, terminal.Writes (terminal.trace call) written (call.shown terminal.lineStart) := by
  obtain ⟨feed, hfeed, hclosed⟩ := exists_writes_startLine terminal
  cases call with
  | text content => exact ⟨_, terminal.writes_print content⟩
  | newLine => exact ⟨feed, hfeed⟩
  | value output => exact ⟨_, hfeed.append (writes_print _ _) hclosed⟩

/-! ### Sequences of calls -/

lemma lineStart_trace (h : left.lineStart = right.lineStart) (call : TraceCall) :
    (left.trace call).lineStart = (right.trace call).lineStart := by
  obtain ⟨written, hleft⟩ := left.exists_writes_trace call
  obtain ⟨written', hright⟩ := right.exists_writes_trace call
  rw [hleft.lineStart, hright.lineStart, h]

/-- The cursor takes the same way in all modes. -/
lemma lineStart_traceAll (h : left.lineStart = right.lineStart) (calls : List TraceCall) :
    (left.traceAll calls).lineStart = (right.traceAll calls).lineStart := by
  induction calls generalizing left right with
  | nil => exact h
  | cons call calls ih => exact ih (lineStart_trace h call)

/-- In minimal mode traces stay free of escape characters. -/
lemma plain_traceAll (hminimal : left.minimal = true) (calls : List TraceCall) :
    (left.traceAll calls).minimal = true ∧
      (escape ∉ left.err.toList → escape ∉ (left.traceAll calls).err.toList) := by
  induction calls generalizing left with
  | nil => exact ⟨hminimal, id⟩
  | cons call calls ih =>
    obtain ⟨written, hwrites⟩ := left.exists_writes_trace call
    obtain ⟨hrest, hplain⟩ := ih (hwrites.minimal.trans hminimal)
    refine ⟨hrest, fun herr => hplain ?_⟩
    rw [hwrites.err, String.toList_append, List.mem_append, not_or]
    exact ⟨herr, hwrites.plain hminimal⟩

end Writing

/-- On terminals in different modes, traces look alike. After any calls, what the next call writes
shows on both of them what the call has to show, and leaves the cursor in the same place. In minimal
mode no escape character gets among the traces. The texts are arbitrary: they can end styles and
leave sequences open. -/
theorem traces_look_alike {left right : Terminal} (hstart : left.lineStart = right.lineStart)
    (calls : List TraceCall) (call : TraceCall) :
    let front := left.traceAll calls
    let front' := right.traceAll calls
    (∃ written written' : String,
        (front.trace call).err = front.err ++ written ∧
        (front'.trace call).err = front'.err ++ written' ∧
        visible written.toList = call.shown front.lineStart ∧
        visible written.toList = visible written'.toList ∧
        (left.minimal = true → escape ∉ written.toList)) ∧
      (front.trace call).lineStart = (front'.trace call).lineStart ∧
      (left.minimal = true → escape ∉ left.err.toList →
        escape ∉ (front.trace call).err.toList) := by
  intro front front'
  have hlines : front.lineStart = front'.lineStart := lineStart_traceAll hstart calls
  obtain ⟨written, hleft⟩ := front.exists_writes_trace call
  obtain ⟨written', hright⟩ := front'.exists_writes_trace call
  have hshown : visible written.toList = visible written'.toList := by
    rw [hleft.visible_eq, hright.visible_eq, hlines]
  refine ⟨⟨written, written', hleft.err, hright.err, hleft.visible_eq, hshown,
    fun hminimal => ?_⟩, lineStart_trace hlines call, fun hminimal herr => ?_⟩
  · exact hleft.plain (plain_traceAll hminimal calls).1
  · obtain ⟨hmode, hplain⟩ := plain_traceAll hminimal calls
    rw [hleft.err, String.toList_append, List.mem_append, not_or]
    exact ⟨hplain herr, hleft.plain hmode⟩

/-- A text that ends a style and leaves a sequence open, and a value behind it. -/
theorem traces_look_alike_sample :
    let left : Terminal := ⟨true, false, false, "", ""⟩
    let right : Terminal := ⟨false, true, false, "", ""⟩
    let calls : List TraceCall := [.text "a\x1b[0mb\x1b"]
    let call : TraceCall := .value (.decimal 7)
    left.lineStart = right.lineStart ∧
      ((left.traceAll calls).trace call).lineStart = ((right.traceAll calls).trace call).lineStart ∧
      escape ∉ ((left.traceAll calls).trace call).err.toList ∧
      ((left.traceAll calls).trace call).err = "ab\n7\n" ∧
      ((right.traceAll calls).trace call).err = "\x1b[34ma\x1b[0m\x1b[34mb\x1b\x1b[0m" ++
        "\x1b[34m\n\x1b[0m" ++ "\x1b[34m7\n\x1b[0m" := by
  intro left right calls call
  have hstart : left.lineStart = right.lineStart := rfl
  obtain ⟨-, hline, hplain⟩ := traces_look_alike hstart calls call
  refine ⟨hstart, hline, hplain rfl (by decide), ?_, ?_⟩
  · decide +kernel
  · decide +kernel

end Terminal

end Octet
