import Octet.Proofs.CompiledRun
import Octet.Proofs.ErrorLocation
import Octet.Proofs.StraightLine

/-!
# Quoted lines

A report about a fault quotes the source line of the instruction that failed. The assembler numbers
the lines between line feeds, but the report counts lines as a reader sees them, where a carriage
return can belong to a line end and a final line end opens no line. On every line with an
instruction the two agree but for white space, and such a line is never blank.
-/
namespace Octet

open Results Layout

/-! ### White space at the ends -/

namespace Text

variable {c : Char} {cs piece : List Char} {line : ℕ}

/-- White space behind a text is dropped with what is there. -/
lemma trim_concat (cs : List Char) (hc : isWhitespace c = true) : trim (cs ++ [c]) = trim cs := by
  unfold trim trimStart
  rw [List.dropWhile_append]
  split_ifs with hempty
  · rw [List.isEmpty_iff.mp hempty, List.dropWhile_cons_of_pos hc]
    rfl
  · rw [List.reverse_append, List.reverse_singleton, List.singleton_append,
      List.dropWhile_cons_of_pos hc]

/-- A carriage return at the end of a line does not show. -/
theorem trim_dropReturn (piece : List Char) : trim (dropReturn piece) = trim piece := by
  unfold dropReturn
  split_ifs with hlast
  · obtain ⟨front, rfl⟩ := List.getLast?_eq_some_iff.mp hlast
    rw [List.dropLast_concat, trim_concat front rfl]
  · rfl

lemma mem_trimStart (h : c ∈ cs) (hc : isWhitespace c = false) : c ∈ trimStart cs := by
  have hsplit := List.takeWhile_append_dropWhile (p := isWhitespace) (l := cs)
  rw [← hsplit, List.mem_append] at h
  refine h.resolve_left fun hfront => ?_
  rw [List.mem_takeWhile_imp hfront] at hc
  cases hc

/-- What is no white space is kept. -/
lemma mem_trim (h : c ∈ cs) (hc : isWhitespace c = false) : c ∈ trim cs :=
  List.mem_reverse.mpr (mem_trimStart (List.mem_reverse.mpr (mem_trimStart h hc)) hc)

lemma isWhitespace_of_isAlpha (h : c.isAlpha = true) : isWhitespace c = false := by
  have hletter := Numeral.isAlpha_iff_toNat.mp h
  simp only [isWhitespace, Bool.or_eq_false_iff, Bool.and_eq_false_iff, decide_eq_false_iff_not,
    beq_eq_false_iff_ne]
  omega

/-- A line that is not empty is shown, but for a carriage return. -/
theorem exists_shown (hpiece : (splitLines cs)[line]? = some piece) (hne : piece ≠ []) :
    ∃ shown, (shownLines cs)[line]? = some shown ∧ trim shown = trim piece := by
  obtain ⟨front, last, hsplit⟩ :=
    (List.eq_nil_or_concat' (splitLines cs)).resolve_left (splitLines_ne_nil cs)
  have hshown : shownLines cs = front.map dropReturn ++ if last = [] then [] else [last] := by
    simp [shownLines, hsplit]
  rw [hsplit] at hpiece
  rw [hshown]
  by_cases hlt : line < front.length
  · rw [List.getElem?_append_left hlt] at hpiece
    refine ⟨dropReturn piece, ?_, trim_dropReturn piece⟩
    rw [List.getElem?_append_left (by simpa using hlt), List.getElem?_map, hpiece]
    rfl
  · -- the last line is shown only if it holds something
    rw [List.getElem?_append_right (not_lt.mp hlt), List.getElem?_singleton] at hpiece
    split_ifs at hpiece with hzero
    obtain rfl := Option.some.inj hpiece
    refine ⟨last, ?_, rfl⟩
    rw [List.getElem?_append_right (by simpa using hlt), List.length_map, hzero, if_neg hne]
    rfl

end Text

open Text

variable {source : String} {clauses : List Clause} {line offset : ℕ} {clause : Clause}
  {phrase : Phrase} {piece : List Char}

/-! ### Lines with an instruction -/

/-- The piece between line feeds that has the number of a line, as a report quotes it. -/
structure Quotes (source : String) (line : ℕ) (piece : List Char) : Prop where
  cut : (splitLines source.toList)[line]? = some piece
  shown : ∃ shown, (shownLines source.toList)[line]? = some shown ∧ trim shown = trim piece
  visible : trim piece ≠ []
  quoted : quotedLine source line = String.ofList (trim piece)

/-- A clause is read on the line with its number. -/
lemma Reads.exists_line (h : Reads source clauses) (hclause : clauses[line]? = some clause) :
    ∃ place, (SourceLine.ofSource source.toList)[line]? = some place ∧
      clause.SpelledBy place.tokens := by
  obtain ⟨hlength, hspelled⟩ := List.forall₂_iff_get.mp h
  obtain ⟨hline, rfl⟩ := List.getElem?_eq_some_iff.mp hclause
  have hplace : line < (SourceLine.ofSource source.toList).length := hlength ▸ hline
  exact ⟨_, List.getElem?_eq_getElem hplace, hspelled line hplace hline⟩

lemma SourceLine.map_chars_locate (number offset : ℕ) (lines : List (List Char)) :
    (locate number offset lines).map SourceLine.chars = lines := by
  induction lines generalizing number offset with
  | nil => rfl
  | cons cs lines ih => rw [locate, List.map_cons, ih]

/-- A line with an instruction is not blank, since its mnemonic is made of letters. -/
lemma Clause.SpelledBy.trim_ne_nil {place : SourceLine} (h : clause.SpelledBy place.tokens)
    (hphrase : clause.phrase? = some phrase) : trim place.chars ≠ [] := by
  obtain ⟨front, back, htokens, -, hback⟩ := h
  rw [Clause.phrase?_eq_some_iff.mp hphrase] at hback
  obtain ⟨head, rest, rfl, -, hnames, -⟩ := hback
  have hhead : head ∈ place.tokens := by simp [htokens]
  obtain ⟨before, after, hchars, -⟩ :=
    exists_split_of_mem_tokenize (SourceLine.mem_tokenize_of_mem_tokens hhead)
  have hshape := Mnemonic.hasShape_of_names hnames
  simp only [Mnemonic.hasShape, Bool.and_eq_true, decide_eq_true_eq, List.all_eq_true] at hshape
  obtain ⟨⟨hlength, -⟩, hletters⟩ := hshape
  obtain ⟨c, hc⟩ := List.exists_mem_of_length_pos (Nat.lt_of_lt_of_le Nat.two_pos hlength)
  have hmem : c ∈ place.chars := by simp [hchars, hc]
  exact List.ne_nil_of_mem (mem_trim hmem (isWhitespace_of_isAlpha (hletters c hc)))

/-- A line with an instruction is quoted as it was read. -/
theorem Reads.exists_quotes (h : Reads source clauses) (hclause : clauses[line]? = some clause)
    (hphrase : clause.phrase? = some phrase) :
    ∃ place, (SourceLine.ofSource source.toList)[line]? = some place ∧
      clause.SpelledBy place.tokens ∧ Quotes source line place.chars := by
  obtain ⟨place, hplace, hspelled⟩ := h.exists_line hclause
  have hpiece : (splitLines source.toList)[line]? = some place.chars := by
    rw [← SourceLine.map_chars_locate 0 0 (splitLines source.toList), List.getElem?_map]
    exact congrArg _ hplace
  have hvisible := hspelled.trim_ne_nil hphrase
  have hne : place.chars ≠ [] := by
    rintro hnil
    rw [hnil] at hvisible
    exact hvisible rfl
  obtain ⟨shown, hshown, htrim⟩ := exists_shown hpiece hne
  refine ⟨place, hplace, hspelled, hpiece, ⟨shown, hshown, htrim⟩, hvisible, ?_⟩
  rw [quotedLine, hshown, Option.getD_some, htrim]

/-- In a loaded image the bytes of a line stand where the line starts. -/
lemma Layout.slice_load (hfits : total clauses ≤ 256) (hclause : clauses[line]? = some clause) :
    (Machine.load (code clauses)).2.memory.slice (start clauses line) clause.size =
      clause.terms.map (value clauses) := by
  obtain ⟨memory, hholds, hload⟩ := Machine.load_eq (length_code.trans_le hfits)
  have hend : start clauses (line + 1) ≤ total clauses := start_le_total _
  rw [start_succ hclause] at hend
  rw [hload, Memory.slice]
  dsimp only
  rw [hholds.cells]
  apply List.ext_getElem?
  intro i
  by_cases hi : i < clause.size
  · have hinside : start clauses line + i < (code clauses).length := by
      rw [length_code]
      omega
    rw [List.getElem?_take_of_lt hi, List.getElem?_drop, List.getElem?_append_left hinside,
      getElem?_code hclause hi, List.getElem?_map]
  · rw [List.getElem?_eq_none (by simp; omega), List.getElem?_eq_none (by simpa using hi)]

/-! ### Runs that fail -/

namespace Machine

variable {machine last next : Machine} {path : List (Event × Machine)} {fault : Fault}

/-- Steps that succeed latch no fault. -/
lemma Steps.running (h : Steps machine path last) (hrunning : machine.cpu.faulted = false) :
    last.cpu.faulted = false := by
  induction h with
  | none => exact hrunning
  | @more machine next _ _ _ step _ _ ih =>
    have houtcome := machine.outcome
    rw [step] at houtcome
    cases houtcome with
    | halted => exact ih hrunning
    | stepped _ _ _ still => exact ih still

/-- A machine whose step fails is at the instruction that fails, and there it stays. -/
lemma fault_of_step (hrunning : machine.cpu.faulted = false)
    (hstep : machine.step = (.error fault, next)) :
    fault.ip = machine.cpu.ip ∧ next.step = (.error ⟨.latched, fault.ip⟩, next) := by
  have houtcome := machine.outcome
  rw [hstep] at houtcome
  cases houtcome with
  | latched faulted => cases hrunning.symm.trans faulted
  | fault running off kind cells => exact ⟨rfl, rfl⟩

/-- A run fails in one of its steps. -/
lemma exists_step_of_runWith {σ : Type} {limit : ℕ} {observe : σ → Machine → Event → σ}
    {observed : σ} (hoff : machine.LatchedOffHalt)
    (h : (machine.runWith limit observe observed).result = .error (.faulted fault)) :
    ∃ path last next, Steps machine path last ∧ last.step = (.error fault, next) := by
  obtain ⟨path, last, hsteps, hending⟩ :=
    (loop_runWith hoff limit observe observed).exists_ending hoff
  generalize machine.runWith limit observe observed = run at h hending
  cases hending with
  | halt | limit => cases h
  | fault step =>
    cases h
    exact ⟨path, last, _, hsteps, step⟩

end Machine

/-- A report about a fault quotes the line that failed. Whatever separates the lines of a source,
the line that is quoted for an instruction of its program is there, is not blank, and is the line
that the instruction was assembled from, trimmed. The bytes of that line are loaded at the offset of
the instruction. A run of the program, also one that is taken up again, fails where one of its
instructions starts. Its fault is found there, and the machine stays there. -/
theorem fault_reports_quote_line {program : Program} (hok : assemble source = .ok program) :
    (∃ clauses, Reads source clauses ∧ ∀ offset line, (offset, line) ∈ program.mapping →
      ∃ place clause phrase, (SourceLine.ofSource source.toList)[line]? = some place ∧
        clauses[line]? = some clause ∧ clause.SpelledBy place.tokens ∧
        clause.statement = some (.instruction phrase) ∧
        Quotes source line place.chars ∧
        (Machine.load program.code).2.memory.slice offset phrase.opcode.width =
          clause.terms.map (value clauses) ∧
        ∀ kind, runReport (.faulted ⟨kind, offset⟩) program (some source) =
          (Report.ofRun (.faulted ⟨kind, offset⟩)).within
            s!"at line {line + 1}: {String.ofList (trim place.chars)}") ∧
    ∀ before machine, Machine.Steps (Machine.load program.code).2 before machine →
      ∀ (σ : Type) (limit : ℕ) (observe : σ → Machine → Event → σ) (observed : σ) (fault : Fault),
        (machine.runWith limit observe observed).result = .error (.faulted fault) →
        (∃ path last next, Machine.Steps machine path last ∧ last.cpu.faulted = false ∧
          last.step = (.error fault, next) ∧ fault.ip = last.cpu.ip ∧
          next.step = (.error ⟨.latched, fault.ip⟩, next)) ∧
        ∀ line, program.lineOf? fault.ip = some line → (fault.ip, line) ∈ program.mapping := by
  obtain ⟨clauses, hreads, hwell, rfl⟩ := assemble_ok_iff.mp hok
  refine ⟨⟨clauses, hreads, fun offset line hentry => ?_⟩, ?_⟩
  · have hlookup := lookup_mapping hentry
    obtain ⟨clause, phrase, hclause, hphrase, rfl⟩ := mem_mapping.mp hentry
    obtain ⟨place, hplace, hspelled, hquotes⟩ := hreads.exists_quotes hclause hphrase
    refine ⟨place, clause, phrase, hplace, hclause, hspelled,
      Clause.phrase?_eq_some_iff.mp hphrase, hquotes, ?_, fun kind => ?_⟩
    · rw [← Clause.size_of_phrase? hphrase]
      exact slice_load hwell.fits hclause
    · have hline : (program clauses).lineOf? (start clauses line) = some line := hlookup
      rw [← hquotes.quoted, runReport]
      simp only [hline]
  · intro before machine hbefore σ limit observe observed fault hrun
    have hnew : (Machine.load (program clauses).code).2.cpu.faulted = false := by
      rw [Machine.cpu_load]
      rfl
    have hrunning := hbefore.running hnew
    have hoff : machine.LatchedOffHalt := fun hfaulted => by cases hrunning.symm.trans hfaulted
    obtain ⟨path, last, next, hsteps, hstep⟩ := Machine.exists_step_of_runWith hoff hrun
    obtain ⟨hip, hlatched⟩ := Machine.fault_of_step (hsteps.running hrunning) hstep
    refine ⟨⟨path, last, next, hsteps, hsteps.running hrunning, hstep, hip, hlatched⟩, ?_⟩
    intro line hline
    obtain ⟨front, back, hsplit, -⟩ := List.lookup_eq_some_iff.mp hline
    rw [hsplit]
    simp

/-- The line that fails ends in a carriage return but in no line feed, and the lines in front of it
end in both. -/
theorem fault_reports_quote_line_sample :
    let source := "; low\r\n\r\n\tSub [4], 232\r"
    ∃ program : Program, assemble source = .ok program ∧
      ((Machine.load program.code).2.runWith 1 Machine.collect []).result =
        .error (.faulted ⟨.stackOverflow, 0⟩) ∧
      runReport (.faulted ⟨.stackOverflow, 0⟩) program (some source) =
        (Report.ofRun (.faulted ⟨.stackOverflow, 0⟩)).within "at line 3: Sub [4], 232" ∧
      ∃ path last, Machine.Steps (Machine.load program.code).2 path last ∧ last.cpu.ip.val = 0 := by
  intro source
  have hok : assemble source = .ok ⟨[6, 4, 232], [(0, 2)], []⟩ := by decide +kernel
  have hrun : ((Machine.load [6, 4, 232]).2.runWith 1 Machine.collect []).result =
      .error (.faulted ⟨.stackOverflow, 0⟩) := by decide +kernel
  obtain ⟨⟨clauses, -, hlines⟩, hruns⟩ := fault_reports_quote_line hok
  obtain ⟨place, _, _, -, -, -, -, hquotes, -, hreport⟩ := hlines 0 2 (List.mem_singleton_self _)
  obtain ⟨⟨path, last, _, hsteps, -, -, hip, -⟩, -⟩ :=
    hruns [] _ (.none _) (List Output) 1 Machine.collect [] ⟨.stackOverflow, 0⟩ hrun
  have hquoted : quotedLine source 2 = "Sub [4], 232" := by decide +kernel
  refine ⟨_, hok, hrun, ?_, path, last, hsteps, hip.symm⟩
  rw [hreport, ← hquotes.quoted, hquoted]
  decide +kernel

end Octet
