import Octet.Proofs.Listing
import Octet.Proofs.Loading
import Octet.Proofs.Relocation
import Octet.Proofs.StraightLine

/-!
# Texts printed back

A text that is written into a source as data and printed by the program comes out as it was written.
-/
namespace Octet

open Results Text Token

/-! ### Blank lines at the end -/

namespace Layout

/-- A line that holds nothing. -/
def blank : Clause := ⟨none, none⟩

variable (clauses : List Clause)

lemma total_blank : total (clauses ++ [blank]) = total clauses := total_concat clauses blank

lemma declared_blank : declared (clauses ++ [blank]) = declared clauses := by
  simp [declared, blank]

lemma address_blank (label : Label) :
    address (clauses ++ [blank]) label = address clauses label := by
  unfold address
  rw [List.findIdx_append]
  split_ifs with h
  · exact start_append_of_le h.le _
  · have hlength : clauses.findIdx (·.declared = some label) = clauses.length :=
      Nat.le_antisymm List.findIdx_le_length (not_lt.mp h)
    have hlast : [blank].findIdx (fun clause => decide (clause.declared = some label)) = 1 := rfl
    have hend : start (clauses ++ [blank]) (1 + clauses.length) = total (clauses ++ [blank]) := by
      rw [← start_length, List.length_append, List.length_singleton, Nat.add_comm]
    rw [hlast, hend, total_blank, hlength, start_length]

lemma value_blank : value (clauses ++ [blank]) = value clauses := by
  funext term
  cases term with
  | label label => rw [value, address_blank, value]
  | byte value => rfl

lemma program_blank : program (clauses ++ [blank]) = program clauses := by
  have hcode : code (clauses ++ [blank]) = code clauses := by
    rw [code, value_blank, List.flatMap_append]
    simp [code, blank, Clause.terms]
  have hmapping : mapping (clauses ++ [blank]) = mapping clauses := by
    simp [mapping_concat, blank, Clause.phrase?]
  have hlabels : labels (clauses ++ [blank]) = labels clauses := by
    simp [labels_concat, blank]
  rw [program, hcode, hmapping, hlabels, program]

lemma wellFormed_blank (h : WellFormed clauses) : WellFormed (clauses ++ [blank]) := by
  refine ⟨?_, ?_, fun label huse => ?_⟩
  · rw [Distinct, declared_blank]
    exact h.distinct
  · rw [total_blank]
    exact h.fits
  · rw [declared_blank, address_blank]
    refine h.bound label ?_
    simpa [Uses, blank, Clause.terms] using huse

/-- Any number of blank lines behind the others changes nothing. -/
theorem program_blanks (h : WellFormed clauses) (blanks : ℕ) :
    WellFormed (clauses ++ List.replicate blanks blank) ∧
      program (clauses ++ List.replicate blanks blank) = program clauses := by
  induction blanks with
  | zero =>
    rw [List.replicate_zero, List.append_nil]
    exact ⟨h, rfl⟩
  | succ blanks ih =>
    rw [List.replicate_succ', ← List.append_assoc]
    exact ⟨wellFormed_blank _ ih.1, (program_blank _).trans ih.2⟩

end Layout

/-! ### The source -/

namespace PrintText

open Layout

/-- A program that prints a text and halts behind it. -/
def lines (text : List Char) : List (List Char) :=
  ["PRNS [text]".toList, "JP end".toList, "text: DB \"".toList ++ text ++ ['"'], "DB 0".toList,
    "end:".toList]

def textLabel : Label := ⟨"text".toList, rfl⟩

def endLabel : Label := ⟨"end".toList, rfl⟩

def clauses (bytes : List UInt8) : List Clause :=
  [⟨none, some (.instruction (.unary .printText (.label textLabel)))⟩,
    ⟨none, some (.instruction (.jump .always (.label endLabel)))⟩,
    ⟨some textLabel, some (.text bytes)⟩, ⟨none, some (.data (.byte 0))⟩, ⟨some endLabel, none⟩]

/-- The text starts at 4 and ends with a zero byte, behind which the program halts. -/
def image (bytes : List UInt8) : List UInt8 :=
  [14, 4, 11, UInt8.ofNat (bytes.length + 5)] ++ bytes ++ [0]

variable {bytes : List UInt8} {text : List Char}

lemma address_textLabel : address (clauses bytes) textLabel = 4 := by
  have hline : (clauses bytes).findIdx (·.declared = some textLabel) = 2 := rfl
  rw [address, hline]
  rfl

lemma start_end : start (clauses bytes) 4 = bytes.length + 5 := by
  have hstart : start (clauses bytes) 4 = 2 + (2 + (bytes.length + (1 + 0))) := rfl
  omega

lemma address_endLabel : address (clauses bytes) endLabel = bytes.length + 5 := by
  have hline : (clauses bytes).findIdx (·.declared = some endLabel) = 4 := rfl
  rw [address, hline, start_end]

lemma code_clauses : code (clauses bytes) = image bytes := by
  have htext : value (clauses bytes) (.label textLabel) = 4 := by
    rw [value, address_textLabel]
    rfl
  have hend : value (clauses bytes) (.label endLabel) = UInt8.ofNat (bytes.length + 5) := by
    rw [value, address_endLabel]
  have hbyte (byte : UInt8) : value (clauses bytes) (.byte byte) = byte := rfl
  unfold code
  generalize value (clauses bytes) = v at *
  simp [clauses, Clause.terms, Statement.terms, Phrase.operands, Phrase.opcode, Opcode.toByte,
    image, htext, hend, hbyte, Function.comp_def]

theorem program_clauses : program (clauses bytes) =
    ⟨image bytes, [(0, 0), (2, 1)], [(textLabel, 4), (endLabel, bytes.length + 5)]⟩ := by
  have hlabels : labels (clauses bytes) = [(textLabel, 4), (endLabel, start (clauses bytes) 4)] :=
    rfl
  rw [program, code_clauses, hlabels, start_end]
  rfl

theorem wellFormed_clauses (h : bytes.length ≤ 226) : WellFormed (clauses bytes) := by
  have hdeclared : declared (clauses bytes) = [textLabel, endLabel] := rfl
  refine ⟨?_, ?_, fun label huse => ?_⟩
  · rw [Distinct, hdeclared]
    decide
  · have htotal : total (clauses bytes) = start (clauses bytes) 4 + 0 := rfl
    rw [htotal, start_end]
    omega
  · have hlabel : label = textLabel ∨ label = endLabel := by
      simpa [Uses, clauses, Clause.terms, Statement.terms, Phrase.operands] using huse
    rw [hdeclared]
    rcases hlabel with rfl | rfl
    · rw [address_textLabel]
      exact ⟨by decide, by decide⟩
    · rw [address_endLabel]
      exact ⟨by decide, by omega⟩

/-! ### Reading the source -/

/-- What a token stands for does not depend on where its line does. -/
lemma tokens_at (number offset : ℕ) (cs : List Char) : SourceLine.tokens ⟨number, offset, cs⟩ =
    (SourceLine.tokens ⟨0, 0, cs⟩).map (Token.relocate (.behind number offset)) := by
  rw [← SourceLine.tokens_behind]
  simp [SourceLine.relocate, Relocation.behind]

/-- The text is one token, whatever it holds, for only its first character may be a quote. -/
lemma tokens_text (hne : text ≠ []) (hquote : '"' ∉ text.tail) (number offset : ℕ) :
    ∃ a b c d, SourceLine.tokens ⟨number, offset, "text: DB \"".toList ++ text ++ ['"']⟩ =
      [⟨.word, "text".toList, a⟩, ⟨.colon, [':'], b⟩, ⟨.word, "DB".toList, c⟩,
        ⟨.text true, '"' :: (text ++ ['"']), d⟩] := by
  obtain ⟨c, inside, rfl⟩ := List.exists_cons_of_ne_nil hne
  have hspace : Blanks [' '] := by simp [Blanks, isBlank]
  have hquoted : Lexeme (.text true) ('"' :: c :: (inside ++ ['"'])) [] := .text c [] hquote
  have hdb : Lexeme .word ['D', 'B'] ([' '] ++ ('"' :: c :: (inside ++ ['"']) ++ [])) :=
    lexeme_of_isAlphanum (by decide) (by simp) (by rintro _ ⟨⟩; rfl)
  have hlabel : Lexeme .word ['t', 'e', 'x', 't']
      ([':'] ++ ([' '] ++ (['D', 'B'] ++ ([' '] ++ ('"' :: c :: (inside ++ ['"']) ++ []))))) :=
    lexeme_of_isAlphanum (by decide) (by simp) (by rintro _ ⟨⟩; rfl)
  have hline : "text: DB \"".toList ++ c :: inside ++ ['"'] = ['t', 'e', 'x', 't'] ++
      ([':'] ++ ([' '] ++ (['D', 'B'] ++ ([' '] ++ ('"' :: c :: (inside ++ ['"']) ++ []))))) := by
    simp
  rw [SourceLine.tokens, hline, ← significant, significant_of_lexeme hlabel (by decide),
    significant_of_lexeme (.colon _) (by decide), significant_blanks hspace (by rintro _ ⟨⟩; rfl),
    significant_of_lexeme hdb (by decide), significant_blanks hspace (by rintro _ ⟨⟩; rfl),
    significant_of_lexeme hquoted (by decide), significant, tokenize]
  exact ⟨_, _, _, _, rfl⟩

/-- The lines of the source hold their clauses, and then come blank lines. -/
theorem reads_source (hne : text ≠ []) (hquote : '"' ∉ text.tail) (hnewline : '\n' ∉ text)
    (hbytes : text.map Char.toNat = bytes.map UInt8.toNat) (blanks : ℕ) :
    Reads (Listing.source (lines text) blanks) (clauses bytes ++ List.replicate blanks blank) := by
  have hlines : ∀ line ∈ lines text ++ List.replicate blanks [], '\n' ∉ line := by
    simp [lines, or_imp, forall_and, hnewline]
  rw [Reads, Listing.source, String.toList_ofList, SourceLine.ofSource,
    splitLines_joinLines (by simp [lines]) hlines]
  refine .cons ?_ (.cons ?_ (.cons ?_ (.cons ?_ (.cons ?_ (Listing.forall₂_blanks blanks _ _)))))
  · have htokens : SourceLine.tokens ⟨0, 0, "PRNS [text]".toList⟩ =
      [⟨.word, "PRNS".toList, 0⟩, ⟨.address true, "[text]".toList, 5⟩] := by decide +kernel
    rw [htokens]
    exact ⟨[], _, rfl, rfl, _, _, rfl, rfl, rfl, _, .one _, .cons ⟨rfl, rfl⟩ .nil⟩
  · have htokens : SourceLine.tokens ⟨0, 0, "JP end".toList⟩ =
      [⟨.word, "JP".toList, 0⟩, ⟨.word, "end".toList, 3⟩] := by decide +kernel
    rw [tokens_at, htokens]
    exact ⟨[], _, rfl, rfl, _, _, rfl, rfl, rfl, _, .one _, .cons (.inl ⟨rfl, rfl⟩) .nil⟩
  · obtain ⟨a, b, c, d, htokens⟩ := tokens_text hne hquote _ _
    rw [htokens]
    refine ⟨[_, _], _, rfl, ⟨_, _, rfl, rfl, rfl, rfl⟩, _, _, rfl, rfl,
      Mnemonic.map_toUpper_name .db, _, .one _, .cons ⟨rfl, ?_⟩ .nil⟩
    rw [← hbytes]
    simp [Token.inner]
  · have htokens : SourceLine.tokens ⟨0, 0, "DB 0".toList⟩ =
      [⟨.word, "DB".toList, 0⟩, ⟨.word, "0".toList, 3⟩] := by decide +kernel
    rw [tokens_at, htokens]
    exact ⟨[], _, rfl, rfl, _, _, rfl, rfl, rfl, _, .one _, .cons (.inl ⟨rfl, rfl⟩) .nil⟩
  · have htokens : SourceLine.tokens ⟨0, 0, "end:".toList⟩ =
      [⟨.word, "end".toList, 0⟩, ⟨.colon, [':'], 3⟩] := by decide +kernel
    rw [tokens_at, htokens]
    exact ⟨[_, _], [], rfl, ⟨_, _, rfl, rfl, rfl, rfl⟩, rfl⟩

end PrintText

/-! ### Printing -/

/-- A text stops before its first zero byte, wherever the scan for it has stopped. -/
lemma takeWhile_take_idxOf (bytes : List UInt8) :
    (bytes.take (bytes.idxOf 0 + 1)).takeWhile (· != 0) = bytes.takeWhile (· != 0) := by
  induction bytes with
  | nil => rfl
  | cons byte bytes ih =>
    rw [List.take_succ_cons]
    by_cases h : byte = 0
    · simp [h]
    · rw [List.idxOf_cons_ne _ h, List.takeWhile_cons_of_pos (by simpa using h), ih,
        List.takeWhile_cons_of_pos (by simpa using h)]

namespace Machine

variable {machine : Machine} {state : State} {bytes : List UInt8}

/-- An instruction that is carried out is a step of the machine, too. -/
lemma step_of_carriesOut {instruction : Instruction}
    (h : machine.cpu.CarriesOut machine.memory instruction (.ok state)) :
    ∃ next, machine.step = (.ok (next.event instruction), next) ∧
      State.of next.cpu next.memory = state ∧ next.cpu.faulted = false := by
  obtain ⟨cpu, memory, hstep, hstate, hfaulted⟩ := h
  refine ⟨⟨memory, cpu, machine.steps + 1⟩, ?_, hstate, hfaulted⟩
  unfold step
  rw [hstep]

/-- What has been printed is read back from above the stack pointer. -/
lemma output_of_print {next : ℕ}
    (h : State.of machine.cpu machine.memory = (state.print bytes).goto next)
    (hfits : state.sp + 1 + bytes.length ≤ 256) : machine.output = bytes := by
  have hsp : machine.cpu.sp.val = state.sp := congrArg State.sp h
  have hlength : machine.cpu.printLength = bytes.length := congrArg State.printLength h
  have hstart : machine.cpu.outputAddress.val = state.sp + 1 := by rw [← hsp]; rfl
  rw [output, hstart, hlength]
  apply List.ext_getElem
  · rw [Memory.length_slice]
    omega
  · intro i hi hbytes
    have hlt : state.sp + 1 + i < 256 := by omega
    have hcell := congrFun (congrArg State.cells h) ⟨state.sp + 1 + i, hlt⟩
    have hwritten : ((state.print bytes).goto next).cells ⟨state.sp + 1 + i, hlt⟩ = bytes[i] := by
      dsimp only [State.goto, State.print, State.write]
      rw [if_pos (Nat.le_add_right _ _), Nat.add_sub_cancel_left, List.getElem?_eq_getElem hbytes]
      rfl
    rw [hwritten] at hcell
    simpa [Memory.slice, State.of, Memory.cell] using hcell

end Machine

namespace PrintText

variable {bytes : List UInt8} {memory : Memory}

/-- As much of the text is printed as fits above the stack pointer. -/
lemma takeWhile_printRun (h : memory.Holds (image bytes)) (hzero : ∀ byte ∈ bytes, byte ≠ 0) :
    (memory.printRun 4).takeWhile (· != 0) = bytes.take 24 := by
  have hslice : ∃ rest, memory.slice 4 24 = bytes.take 24 ++ rest ∧
      rest.takeWhile (· != 0) = [] := by
    refine ⟨(0 :: List.replicate (256 - (image bytes).length) 0).take (24 - bytes.length), ?_, ?_⟩
    · rw [Memory.slice, h.cells, image]
      simp [List.take_append]
    · cases 24 - bytes.length <;> simp
  obtain ⟨rest, hslice, hrest⟩ := hslice
  have hnonzero : ∀ byte ∈ bytes.take 24, (byte != 0) = true := fun byte hbyte =>
    bne_iff_ne.mpr (hzero byte (List.mem_of_mem_take hbyte))
  rw [Memory.printRun, takeWhile_take_idxOf, show (4 : UInt8).toNat = 4 from rfl, hslice,
    List.takeWhile_append_of_pos hnonzero, hrest, List.append_nil]

/-- The text starts at 4 and is printed at 232, so that the two never meet. -/
lemma carriesOut_print (h : memory.Holds (image bytes)) :
    Cpu.initial.CarriesOut memory (.printText 4)
      (.ok (((State.of .initial memory).print (memory.printRun 4)).goto 2)) := by
  have hlength := (memory.length_printRun_le 4).1
  have hsp : (State.of .initial memory).sp = 231 := rfl
  have hfour : (4 : UInt8).toNat = 4 := rfl
  have hmeaning : Instruction.meaning 2 (State.of .initial memory) (.printText 4) =
      .ok (((State.of .initial memory).print (memory.printRun 4)).goto 2) := by
    dsimp only [Instruction.meaning]
    rw [State.text_eq_printRun, if_neg]
    omega
  have hopcode : memory.byteAt Cpu.initial.ip = Opcode.printText.toByte := h.byteAt 0
  have hdecode : Instruction.decode? .printText (memory.byteAt (Cpu.initial.ip + 1))
      (memory.byteAt (Cpu.initial.ip + 2)) = some (.printText 4) :=
    congrArg (fun byte => some (Instruction.printText byte)) (h.byteAt 1)
  rw [← hmeaning]
  exact Cpu.carriesOut_of_decode rfl hopcode (by decide) hdecode

/-- The jump behind the text leads to the cell behind the image. -/
lemma carriesOut_jump {machine : Machine} (hlength : bytes.length ≤ 226)
    (hbytes : ∀ a < 232, machine.memory.byteAt a = ((image bytes)[a]?).getD 0)
    (hrunning : machine.cpu.faulted = false) (hip : machine.cpu.ip.val = 2) :
    ∃ instruction, machine.cpu.CarriesOut machine.memory (.jump .always instruction)
      (.ok ((State.of machine.cpu machine.memory).goto (bytes.length + 5))) := by
  have htarget : (UInt8.ofNat (bytes.length + 5)).toNat = bytes.length + 5 :=
    UInt8.toNat_ofNat_of_lt' (by have : 256 = UInt8.size := rfl; omega)
  have hopcode : machine.memory.byteAt machine.cpu.ip = Opcode.jump.toByte := by
    rw [hip]
    exact hbytes 2 (by decide)
  have hdecode : Instruction.decode? .jump (machine.memory.byteAt (machine.cpu.ip + 1))
      (machine.memory.byteAt (machine.cpu.ip + 2)) =
        some (.jump .always (UInt8.ofNat (bytes.length + 5))) := by
    rw [hip]
    exact congrArg (fun byte => some (Instruction.jump .always byte)) (hbytes 3 (by decide))
  have hfits : machine.cpu.ip + Opcode.jump.width ≤ 256 := by
    rw [hip]
    decide
  refine ⟨UInt8.ofNat (bytes.length + 5), ?_⟩
  have hcarries := Cpu.carriesOut_of_decode hrunning hopcode hfits hdecode
  have halways (state : State) : Condition.always.holds state.zero state.carry = true := rfl
  dsimp only [Instruction.meaning] at hcarries
  rwa [if_pos (halways _), htarget] at hcarries

/-- The program takes two steps. The first prints, the second jumps behind the zero byte, and there
the machine halts. -/
theorem exists_steps (hlength : bytes.length ≤ 226) (hzero : ∀ byte ∈ bytes, byte ≠ 0)
    (h : memory.Holds (image bytes)) : ∃ printed last final,
    Machine.Steps { Machine.initial with memory } [(.printed (.text (String.ofList
      ((bytes.take 24).map fun byte => Char.ofNat byte.toNat))), printed), (.stepped, last)] last ∧
    last.step = (.ok .halted, final) := by
  let machine : Machine := { Machine.initial with memory }
  have hfirst : machine.cpu.CarriesOut machine.memory (.printText 4)
    (.ok (((State.of .initial memory).print (memory.printRun 4)).goto 2)) := carriesOut_print h
  obtain ⟨printed, hprint, hstate, hrunning⟩ := Machine.step_of_carriesOut hfirst
  have hevent : printed.event (.printText 4) = .printed (.text (String.ofList
      ((bytes.take 24).map fun byte => Char.ofNat byte.toNat))) := by
    have hrun := (memory.length_printRun_le 4).1
    have hsp : (State.of .initial memory).sp = 231 := rfl
    have houtput := Machine.output_of_print hstate (by omega)
    rw [Machine.event, houtput, takeWhile_printRun h hzero]
  -- the cells below the output still hold the image and the zero behind it
  have hbytes : ∀ a < 232, printed.memory.byteAt a = ((image bytes)[a]?).getD 0 := by
    intro a ha
    have hlt : a < 256 := by omega
    rw [← h.byteAt, printed.memory.byteAt_of_lt hlt, memory.byteAt_of_lt hlt]
    have hbelow : ¬ (232 ≤ a ∧ a < 232 + (memory.printRun 4).length) := by omega
    exact (congrFun (congrArg State.cells hstate) ⟨a, hlt⟩).trans (State.cells_write_of_not hbelow)
  obtain ⟨target, hcarries⟩ := carriesOut_jump hlength hbytes hrunning (congrArg State.ip hstate)
  obtain ⟨last, hjump, hstate', hrunning'⟩ := Machine.step_of_carriesOut hcarries
  have hip : last.cpu.ip.val = bytes.length + 5 := congrArg State.ip hstate'
  have hhalt : last.AtHalt := by
    refine Cpu.getElem?_eq_some_iff_byteAt.mpr ⟨by omega, ?_⟩
    have hlt : bytes.length + 5 < 256 := by omega
    have hbehind : (image bytes).length ≤ bytes.length + 5 := by simp [image]
    have hend := hbytes (bytes.length + 5) (by omega)
    rw [List.getElem?_eq_none hbehind, printed.memory.byteAt_of_lt hlt] at hend
    rw [hip, last.memory.byteAt_of_lt hlt]
    exact (congrFun (congrArg State.cells hstate') ⟨_, hlt⟩).trans hend
  have hoff : last.LatchedOffHalt := fun hfaulted => by
    rw [hrunning'] at hfaulted
    cases hfaulted
  obtain ⟨final, hfinal⟩ := hoff.step_atHalt hhalt
  rw [hevent] at hprint
  exact ⟨printed, last, final, .more hprint nofun (.more hjump nofun (.none last)), hfinal⟩

end PrintText

/-- A text in a source is printed back as it was written. It may hold up to 226 characters that fit
into a byte, but no zero, which would end it, no line feed, and no double quote except in front. The
program that prints it is accepted and loads, and every run with a limit of at least two steps
prints the text, or the first 24 characters of a longer one, prints nothing else, and halts after
exactly two steps. Blank lines may follow the program. -/
theorem text_is_printed_back {text : List Char} (hlength : 1 ≤ text.length ∧ text.length ≤ 226)
    (hchars : ∀ c ∈ text, 1 ≤ c.toNat ∧ c.toNat ≤ 255 ∧ c ≠ '\n') (hquote : '"' ∉ text.tail)
    (blanks : ℕ) :
    ∃ program machine, assemble (Listing.source (PrintText.lines text) blanks) = .ok program ∧
      Machine.load program.code = (.ok (), machine) ∧
      ∀ limit, 2 ≤ limit →
        (machine.run limit).result = .ok () ∧
        (machine.run limit).observed = [.text (String.ofList (text.take 24))] ∧
        (machine.run limit).machine.steps = 2 := by
  let bytes := text.map fun c => UInt8.ofNat c.toNat
  have hbyte : ∀ c ∈ text, (UInt8.ofNat c.toNat).toNat = c.toNat := by
    intro c hc
    have hsize : 256 = UInt8.size := rfl
    have hle := (hchars c hc).2.1
    exact UInt8.toNat_ofNat_of_lt' (by omega)
  have hbytes : text.map Char.toNat = bytes.map UInt8.toNat := by
    rw [List.map_map]
    exact List.map_congr_left fun c hc => (hbyte c hc).symm
  have hzero : ∀ byte ∈ bytes, byte ≠ 0 := by
    intro byte hmem hzero
    obtain ⟨c, hc, rfl⟩ := List.mem_map.mp hmem
    have hpos := (hchars c hc).1
    rw [← hbyte c hc, hzero] at hpos
    exact absurd hpos (by decide)
  have hcount : bytes.length ≤ 226 := by simpa [bytes] using hlength.2
  have hne : text ≠ [] := List.ne_nil_of_length_pos hlength.1
  have hnewline : '\n' ∉ text := fun hmem => (hchars _ hmem).2.2 rfl
  have hread : (bytes.take 24).map (fun byte => Char.ofNat byte.toNat) = text.take 24 := by
    have hall : bytes.map (fun byte => Char.ofNat byte.toNat) = text := by
      have hchar : ∀ c ∈ text, Char.ofNat (UInt8.ofNat c.toNat).toNat = c := fun c hc => by
        rw [hbyte c hc, Char.ofNat_toNat]
      rw [List.map_map]
      exact (List.map_congr_left hchar).trans (List.map_id' text)
    rw [List.map_take, hall]
  obtain ⟨hwell, hprogram⟩ := Layout.program_blanks _ (PrintText.wellFormed_clauses hcount) blanks
  have hreads := PrintText.reads_source hne hquote hnewline hbytes blanks
  have hfits : (PrintText.image bytes).length ≤ 256 := by
    simp only [PrintText.image, List.length_append, List.length_cons, List.length_nil]
    omega
  obtain ⟨memory, hholds, hload⟩ := Machine.load_eq hfits
  obtain ⟨printed, last, final, hsteps, hhalt⟩ := PrintText.exists_steps hcount hzero hholds
  rw [hread] at hsteps
  rw [PrintText.program_clauses] at hprogram
  have hok := assemble_ok_iff.mpr ⟨_, hreads, hwell, hprogram.symm⟩
  refine ⟨_, _, hok, hload, fun limit hlimit => ?_⟩
  have hoff : Machine.LatchedOffHalt { Machine.initial with memory } := by
    intro hfaulted
    cases hfaulted
  exact Machine.run_of_halt hoff hsteps hhalt hlimit

/-- A quote in front, a semicolon, a carriage return and characters beyond the letters, two more of
them than are printed. -/
theorem text_is_printed_back_sample :
    ∃ program machine, assemble ("PRNS [text]\nJP end\n" ++
        "text: DB \"\";\rÿÿÿÿÿÿÿÿÿÿÿÿÿÿÿÿÿÿÿÿÿÿÿ\"\nDB 0\nend:") = .ok program ∧
      Machine.load program.code = (.ok (), machine) ∧
      (machine.run 2).observed = [.text "\";\rÿÿÿÿÿÿÿÿÿÿÿÿÿÿÿÿÿÿÿÿÿ"] := by
  have hsource : Listing.source (PrintText.lines ('"' :: ';' :: '\r' :: List.replicate 23 'ÿ')) 0 =
      "PRNS [text]\nJP end\n" ++
        "text: DB \"\";\rÿÿÿÿÿÿÿÿÿÿÿÿÿÿÿÿÿÿÿÿÿÿÿ\"\nDB 0\nend:" := by
    decide +kernel
  have hchars : ∀ c ∈ '"' :: ';' :: '\r' :: List.replicate 23 'ÿ',
      1 ≤ c.toNat ∧ c.toNat ≤ 255 ∧ c ≠ '\n' := by
    intro c hc
    have hcases : c = '"' ∨ c = ';' ∨ c = '\r' ∨ c = 'ÿ' := by simpa using hc
    rcases hcases with rfl | rfl | rfl | rfl <;> decide
  obtain ⟨program, machine, hok, hload, hrun⟩ :=
    @text_is_printed_back ('"' :: ';' :: '\r' :: List.replicate 23 'ÿ') (by decide) hchars
      (by decide) 0
  rw [hsource] at hok
  exact ⟨program, machine, hok, hload, (hrun 2 le_rfl).2.1⟩

end Octet
