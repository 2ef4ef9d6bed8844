import Octet.Proofs.Digits
import Octet.Proofs.Language
import Octet.Proofs.Lines
import Octet.Proofs.Tokens

/-!
# Listings

Every image of instructions can be written out, one instruction on a line, with its operands as
numbers. However the numbers and the mnemonics are written, and whatever blanks stand around them,
the listing assembles to the image, and the image is taken apart into the instructions again.
-/
namespace Octet

open Text Results

/-! ### Instructions in memory -/

/-- An instruction as it is stored: its opcode and as many bytes behind it as the opcode takes. -/
structure Encoded where
  op : Opcode
  operands : List UInt8
  isInstruction : op ≠ .halt
  complete : operands.length = op.operandCount

def Encoded.bytes (e : Encoded) : List UInt8 := e.op.toByte :: e.operands

/-- Whether an operand is written in brackets. -/
inductive Form where
  | bare
  | bracketed

/-- How the operands of an opcode are written. -/
def Opcode.forms : Opcode → List Form
  | .halt => []
  | .copyCell | .addCell | .subtractCell | .compareCell => [.bracketed, .bracketed]
  | .copyLiteral | .addLiteral | .subtractLiteral | .compareLiteral => [.bracketed, .bare]
  | .increment | .decrement | .printDecimal | .printText => [.bracketed]
  | .jump | .jumpCarry | .jumpZero | .jumpNoCarry | .jumpNotZero => [.bare]

namespace Listing

/-- The bytes of instructions behind one another. -/
def image (instructions : List Encoded) : List UInt8 := instructions.flatMap Encoded.bytes

/-- How many bytes instructions take. -/
def size (instructions : List Encoded) : ℕ := (instructions.map (·.op.width)).sum

/-- Where each instruction starts, and its line. -/
def mapping (instructions : List Encoded) : List (ℕ × ℕ) :=
  instructions.zipIdx.map fun (_, line) => (size (instructions.take line), line)

/-- Take an image apart, from its first byte on. Every opcode tells where the next one is. -/
def disassemble : List UInt8 → Option (List Encoded)
  | [] => some []
  | byte :: rest =>
    match Opcode.ofByte? byte with
    | none => none
    | some op =>
      if h : op ≠ .halt ∧ op.operandCount ≤ rest.length then
        (disassemble (rest.drop op.operandCount)).map
          (⟨op, rest.take op.operandCount, h.1, List.length_take_of_le h.2⟩ :: ·)
      else none
termination_by bytes => bytes.length
decreasing_by
  simp only [List.length_drop, List.length_cons]
  omega

theorem disassemble_image (instructions : List Encoded) :
    disassemble (image instructions) = some instructions := by
  induction instructions with
  | nil => simp [image, disassemble]
  | cons e instructions ih =>
    obtain ⟨op, operands, hop, hlength⟩ := e
    have himage : image (⟨op, operands, hop, hlength⟩ :: instructions) =
        op.toByte :: (operands ++ image instructions) := rfl
    have hroom : op ≠ .halt ∧ op.operandCount ≤ (operands ++ image instructions).length := by
      refine ⟨hop, ?_⟩
      rw [List.length_append, hlength]
      exact Nat.le_add_right _ _
    simp only [himage, disassemble, Opcode.ofByte?_toByte]
    rw [dif_pos hroom]
    simp only [← hlength, List.drop_left, List.take_left, ih]
    rfl

end Listing

/-! ### Instructions as they are written -/

/-- The operand of this form for a byte. -/
def Form.argument : Form → UInt8 → Argument
  | .bare, byte => .number (.byte byte)
  | .bracketed, byte => .address (.byte byte)

/-- The written instruction says what the stored one does. -/
structure Phrase.Denotes (phrase : Phrase) (e : Encoded) : Prop where
  opcode : phrase.opcode = e.op
  mnemonic : e.op.mnemonic? = some phrase.mnemonic
  operands : phrase.operands = e.operands.map Term.byte
  arguments : phrase.arguments = List.zipWith Form.argument e.op.forms e.operands

namespace Encoded

/-- The instruction with its operands written as numbers. -/
def phrase (e : Encoded) : Phrase :=
  let first : Term := .byte (e.operands.getD 0 0)
  let second : Term := .byte (e.operands.getD 1 0)
  match h : e.op with
  | .halt => absurd h e.isInstruction
  | .copyCell => .binary .copy first (.cell second)
  | .copyLiteral => .binary .copy first (.literal second)
  | .addCell => .binary .add first (.cell second)
  | .addLiteral => .binary .add first (.literal second)
  | .subtractCell => .binary .subtract first (.cell second)
  | .subtractLiteral => .binary .subtract first (.literal second)
  | .increment => .unary .increment first
  | .decrement => .unary .decrement first
  | .compareCell => .binary .compare first (.cell second)
  | .compareLiteral => .binary .compare first (.literal second)
  | .jump => .jump .always first
  | .jumpCarry => .jump .carry first
  | .jumpZero => .jump .zero first
  | .printText => .unary .printText first
  | .printDecimal => .unary .printDecimal first
  | .jumpNoCarry => .jump .noCarry first
  | .jumpNotZero => .jump .notZero first

lemma phrase_denotes (e : Encoded) : e.phrase.Denotes e := by
  obtain ⟨op, operands, hop, hlength⟩ := e
  -- an opcode takes one operand or two, and is written in one way for each
  cases op with
  | halt => exact absurd rfl hop
  | copyCell | copyLiteral | addCell | addLiteral | subtractCell | subtractLiteral | compareCell
  | compareLiteral =>
    obtain ⟨a, b, rfl⟩ := List.length_eq_two.mp hlength
    exact ⟨rfl, rfl, rfl, rfl⟩
  | increment | decrement | printText | printDecimal | jump | jumpCarry | jumpZero | jumpNoCarry
  | jumpNotZero =>
    obtain ⟨a, rfl⟩ := List.length_eq_one_iff.mp hlength
    exact ⟨rfl, rfl, rfl, rfl⟩

/-- The clause of a line that states the instruction. -/
def clause (e : Encoded) : Clause := ⟨none, some (.instruction e.phrase)⟩

@[simp] theorem size_clause (e : Encoded) : e.clause.size = e.op.width := by
  rw [← e.phrase_denotes.opcode]
  rfl

@[simp] theorem terms_clause (e : Encoded) : e.clause.terms = e.bytes.map Term.byte := by
  have hterms : e.clause.terms = .byte e.phrase.opcode.toByte :: e.phrase.operands := rfl
  rw [hterms, e.phrase_denotes.opcode, e.phrase_denotes.operands]
  rfl

end Encoded

namespace Listing

open Layout

variable {instructions : List Encoded} {blanks : ℕ}

/-- The clauses of a listing that ends in blank lines. -/
def clauses (instructions : List Encoded) (blanks : ℕ) : List Clause :=
  instructions.map Encoded.clause ++ List.replicate blanks ⟨none, none⟩

lemma start_clauses (line : ℕ) :
    start (clauses instructions blanks) line = size (instructions.take line) := by
  have hblank : Clause.size ⟨none, none⟩ = 0 := rfl
  simp [start, clauses, List.take_append, ← List.map_take, size, Function.comp_def, hblank]

lemma total_clauses : total (clauses instructions blanks) = size instructions := by
  have hblank : Clause.size ⟨none, none⟩ = 0 := rfl
  simp [total, clauses, size, Function.comp_def, hblank]

lemma declared_clauses : declared (clauses instructions blanks) = [] := by
  simp [declared, clauses, Encoded.clause]

lemma distinct_clauses : Distinct (clauses instructions blanks) := by
  rw [Distinct, declared_clauses]
  exact .nil

lemma flatMap_terms_clauses : (clauses instructions blanks).flatMap Clause.terms =
    (image instructions).map Term.byte := by
  have hblank : Clause.terms ⟨none, none⟩ = [] := rfl
  simp [clauses, image, List.flatMap_map, List.map_flatMap, hblank]

lemma bound_clauses : Bound (clauses instructions blanks) := by
  intro label huse
  rw [Uses, flatMap_terms_clauses] at huse
  obtain ⟨byte, _, hbyte⟩ := List.mem_map.mp huse
  cases hbyte

lemma code_clauses : code (clauses instructions blanks) = image instructions := by
  rw [code, ← List.map_flatMap, flatMap_terms_clauses, List.map_map]
  exact List.map_id _

lemma labels_clauses : labels (clauses instructions blanks) = [] := by
  rw [← List.map_eq_nil_iff, map_fst_labels, declared_clauses]

lemma mapping_clauses : Layout.mapping (clauses instructions blanks) = mapping instructions := by
  simp only [Layout.mapping, start_clauses]
  rw [clauses, List.zipIdx_append, List.filterMap_append, List.zipIdx_map, List.filterMap_map]
  refine (congrArg₂ (· ++ ·) ?_ (List.filterMap_eq_nil_iff.mpr ?_)).trans (List.append_nil _)
  · rw [mapping, ← List.filterMap_eq_map]
    rfl
  · rintro ⟨clause, line⟩ hmem
    obtain rfl : clause = ⟨none, none⟩ :=
      List.eq_of_mem_replicate (List.fst_mem_of_mem_zipIdx hmem)
    rfl

theorem program_clauses : program (clauses instructions blanks) =
    ⟨image instructions, mapping instructions, []⟩ := by
  rw [program, code_clauses, mapping_clauses, labels_clauses]

end Listing

/-! ### Lines of a listing -/

/-- An operand of this form is a number in any format, in brackets or without. -/
def Form.Writes (byte : UInt8) (cs : List Char) : Form → Prop
  | .bare => Numeral.Writes byte.toNat cs
  | .bracketed => ∃ inside, Numeral.Writes byte.toNat inside ∧ cs = '[' :: (inside ++ [']'])

/-- Operands are separated by commas, and blanks may stand in front of a comma and behind. -/
inductive WritesOperands : List Form → List UInt8 → List Char → Prop
  | one {form : Form} {byte : UInt8} {cs behind : List Char} (operand : form.Writes byte cs)
      (blanks : Blanks behind) : WritesOperands [form] [byte] (cs ++ behind)
  | more {form : Form} {byte : UInt8} {cs behind front : List Char} {forms : List Form}
      {bytes : List UInt8} {rest : List Char} (operand : form.Writes byte cs)
      (blanks : Blanks behind) (blanks' : Blanks front)
      (operands : WritesOperands forms bytes rest) :
      WritesOperands (form :: forms) (byte :: bytes) (cs ++ (behind ++ ',' :: (front ++ rest)))

/-- A line with the mnemonic of the instruction in any letter case and its operands behind it. -/
def Encoded.WritesLine (e : Encoded) (line : List Char) : Prop :=
  ∃ mnemonic indent word gap operands, e.op.mnemonic? = some mnemonic ∧
    line = indent ++ (word ++ (gap ++ operands)) ∧ Blanks indent ∧
    word.map Char.toUpper = mnemonic.name.toList ∧ Blanks gap ∧ gap ≠ [] ∧
    WritesOperands e.op.forms e.operands operands

section Lines

open Token

variable {cs rest : List Char}

lemma letters_of_names {mnemonic : Mnemonic}
    (h : cs.map Char.toUpper = mnemonic.name.toList) :
    cs ≠ [] ∧ ∀ c ∈ cs, c.isAlphanum = true := by
  have hshape := Mnemonic.hasShape_of_names h
  simp only [Mnemonic.hasShape, Bool.and_eq_true, decide_eq_true_eq, List.all_eq_true] at hshape
  refine ⟨?_, fun c hc => by simp [Char.isAlphanum, hshape.2 c hc]⟩
  rintro rfl
  simp at hshape

lemma le_limit (byte : UInt8) : byte.toNat ≤ Numeral.limit :=
  byte.toNat_lt.le.trans (by decide)

variable {form : Form} {byte : UInt8}

/-- A written operand is one token, which is read as the operand. -/
lemma Form.Writes.exists_kind (h : form.Writes byte cs)
    (hstop : ∀ d ∈ rest.head?, continuesWord d = false) :
    ∃ kind, (kind ≠ .blank ∧ kind ≠ .comment) ∧ Lexeme kind cs rest ∧
      ∀ offset, (form.argument byte).SpelledBy ⟨kind, cs, offset⟩ := by
  cases form with
  | bare =>
    have hcs : Numeral.Writes byte.toNat cs := h
    exact ⟨.word, by decide, lexeme_of_isAlphanum hcs.ne_nil (hcs.isAlphanum (le_limit byte)) hstop,
      fun _ => .inl ⟨rfl, hcs.value?_eq (le_limit byte)⟩⟩
  | bracketed =>
    obtain ⟨inside, hinside, rfl⟩ := h
    have hclose : ']' ∉ inside := fun hmem =>
      absurd (hinside.isAlphanum (le_limit byte) _ hmem) (by decide)
    refine ⟨.address true, by decide, .address rest hclose, fun _ => ⟨rfl, ?_⟩⟩
    have hinner : Token.inner ⟨.address true, '[' :: (inside ++ [']']), 0⟩ = inside := by
      simp [Token.inner]
    exact (congrArg Numeral.value? hinner).trans (hinside.value?_eq (le_limit byte))

lemma Form.Writes.isBlank_head (h : form.Writes byte cs) (rest : List Char) :
    ∀ d ∈ (cs ++ rest).head?, isBlank d = false := by
  have hfirst : ∃ c body, cs = c :: body ∧ isBlank c = false := by
    cases form with
    | bare =>
      have hcs : Numeral.Writes byte.toNat cs := h
      obtain ⟨c, body, rfl⟩ := List.exists_cons_of_ne_nil hcs.ne_nil
      have hc := hcs.isAlphanum (le_limit byte) c List.mem_cons_self
      exact ⟨c, body, rfl, not_isBlank_of_startsWord (startsWord_of_isAlphanum hc)⟩
    | bracketed =>
      obtain ⟨inside, _, rfl⟩ := h
      exact ⟨'[', inside ++ [']'], rfl, rfl⟩
  obtain ⟨c, body, rfl, hc⟩ := hfirst
  simpa using hc

variable {forms : List Form} {bytes : List UInt8}

lemma WritesOperands.isBlank_head (h : WritesOperands forms bytes cs) :
    ∀ d ∈ cs.head?, isBlank d = false := by
  cases h with
  | one operand => exact operand.isBlank_head _
  | more operand => exact operand.isBlank_head _

theorem WritesOperands.separated (h : WritesOperands forms bytes cs) (offset : ℕ) :
    ∃ operands, Separated (significant cs offset) operands ∧
      List.Forall₂ Argument.SpelledBy operands (List.zipWith Form.argument forms bytes) := by
  induction h generalizing offset with
  | @one form byte cs behind operand blanks =>
    have hstop := blanks.stop (fun d (hd : d ∈ [].head?) => nomatch hd)
    rw [List.append_nil] at hstop
    obtain ⟨kind, hkind, hlexeme, hspelled⟩ := operand.exists_kind hstop
    rw [significant_of_lexeme hlexeme hkind, significant_eq_nil blanks]
    exact ⟨_, .one _, .cons (hspelled offset) .nil⟩
  | @more form byte cs behind front forms bytes rest operand blanks blanks' operands ih =>
    have hstop : ∀ d ∈ (',' :: (front ++ rest)).head?, continuesWord d = false := by
      rintro _ ⟨⟩
      rfl
    have hblank : ∀ d ∈ (',' :: (front ++ rest)).head?, isBlank d = false := by
      rintro _ ⟨⟩
      rfl
    obtain ⟨kind, hkind, hlexeme, hspelled⟩ := operand.exists_kind (blanks.stop hstop)
    have hcomma : ∀ offset, significant (',' :: (front ++ rest)) offset =
        ⟨.comma, [','], offset⟩ :: significant rest (offset + 1 + byteLength front) := by
      intro offset
      rw [← significant_blanks blanks' operands.isBlank_head]
      exact significant_of_lexeme (.comma (front ++ rest)) (by decide) offset
    rw [significant_of_lexeme hlexeme hkind, significant_blanks blanks hblank, hcomma]
    obtain ⟨tokens, hseparated, hoperands⟩ := ih _
    exact ⟨_ :: tokens, .more rfl hseparated, .cons (hspelled offset) hoperands⟩

/-- A line of a listing holds its instruction. -/
theorem Encoded.WritesLine.spelledBy {e : Encoded} (h : e.WritesLine cs) (number offset : ℕ) :
    e.clause.SpelledBy (SourceLine.tokens ⟨number, offset, cs⟩) := by
  obtain ⟨mnemonic, indent, word, gap, text, hmnemonic, rfl, hindent, hword, hgap, hne, htext⟩ := h
  obtain ⟨hword_ne, hletters⟩ := letters_of_names hword
  obtain ⟨c, word, rfl⟩ := List.exists_cons_of_ne_nil hword_ne
  obtain ⟨b, gap, rfl⟩ := List.exists_cons_of_ne_nil hne
  have hlexeme : Lexeme .word (c :: word) (b :: gap ++ text) :=
    lexeme_of_isAlphanum (List.cons_ne_nil _ _) hletters
      (by simpa using continuesWord_of_isBlank (hgap b List.mem_cons_self))
  have hhead : ∀ d ∈ (c :: word ++ (b :: gap ++ text)).head?, isBlank d = false := by
    rintro _ ⟨⟩
    exact not_isBlank_of_startsWord (startsWord_of_isAlphanum (hletters c List.mem_cons_self))
  have htokens : ∃ start, SourceLine.tokens
      ⟨number, offset, indent ++ (c :: word ++ (b :: gap ++ text))⟩ =
        ⟨.word, c :: word, offset + byteLength indent⟩ :: significant text start := by
    have h := significant_blanks hindent hhead offset
    rw [significant_of_lexeme hlexeme (by decide), significant_blanks hgap htext.isBlank_head] at h
    exact ⟨_, h⟩
  obtain ⟨start, htokens⟩ := htokens
  obtain ⟨operands, hseparated, hspelled⟩ := htext.separated start
  rw [htokens]
  refine ⟨[], _, rfl, rfl, _, _, rfl, rfl, ?_, operands, hseparated, ?_⟩
  · have hname := hmnemonic.symm.trans e.phrase_denotes.mnemonic
    rw [hword, Option.some.inj hname]
    rfl
  · rw [← e.phrase_denotes.arguments] at hspelled
    exact hspelled

/-! ### Whole listings -/

lemma Blanks.newline_not_mem (h : Blanks cs) : '\n' ∉ cs := fun hmem =>
  absurd (h _ hmem) (by decide)

lemma Form.Writes.newline_not_mem (h : form.Writes byte cs) : '\n' ∉ cs := by
  have hnumber : ∀ {cs}, Numeral.Writes byte.toNat cs → '\n' ∉ cs := fun hcs hmem =>
    absurd (hcs.isAlphanum (le_limit byte) _ hmem) (by decide)
  cases form with
  | bare => exact hnumber h
  | bracketed =>
    obtain ⟨inside, hinside, rfl⟩ := h
    simpa using hnumber hinside

lemma WritesOperands.newline_not_mem (h : WritesOperands forms bytes cs) : '\n' ∉ cs := by
  induction h with
  | one operand blanks => simp [operand.newline_not_mem, blanks.newline_not_mem]
  | more operand blanks blanks' _ ih =>
    simp [operand.newline_not_mem, blanks.newline_not_mem, blanks'.newline_not_mem, ih]

lemma Encoded.WritesLine.newline_not_mem {e : Encoded} (h : e.WritesLine cs) : '\n' ∉ cs := by
  obtain ⟨mnemonic, indent, word, gap, text, -, rfl, hindent, hword, hgap, -, htext⟩ := h
  have hletters : '\n' ∉ word := fun hmem =>
    absurd ((letters_of_names hword).2 _ hmem) (by decide)
  simp [hindent.newline_not_mem, hletters, hgap.newline_not_mem, htext.newline_not_mem]

end Lines

namespace Listing

open Layout

variable {instructions : List Encoded} {lines : List (List Char)}

/-- The source with these lines and then as many empty ones. -/
def source (lines : List (List Char)) (blanks : ℕ) : String :=
  String.ofList (joinLines (lines ++ List.replicate blanks []))

/-- A line without anything on it reads as a clause of nothing. -/
lemma forall₂_blanks (blanks number offset : ℕ) :
    List.Forall₂ (fun line clause => Clause.SpelledBy line.tokens clause)
      (SourceLine.locate number offset (List.replicate blanks []))
      (List.replicate blanks ⟨none, none⟩) := by
  induction blanks generalizing number offset with
  | zero => exact .nil
  | succ blanks ih =>
    refine .cons ⟨[], [], ?_, rfl, rfl⟩ (ih _ _)
    simp [SourceLine.tokens, tokenize]

lemma forall₂_lines (h : List.Forall₂ Encoded.WritesLine instructions lines)
    (blanks number offset : ℕ) :
    List.Forall₂ (fun line clause => Clause.SpelledBy line.tokens clause)
      (SourceLine.locate number offset (lines ++ List.replicate blanks []))
      (clauses instructions blanks) := by
  induction h generalizing number offset with
  | nil => exact forall₂_blanks blanks number offset
  | cons hline _ ih => exact .cons (hline.spelledBy _ _) (ih _ _)

lemma newline_not_mem_of_mem (h : List.Forall₂ Encoded.WritesLine instructions lines) :
    ∀ line ∈ lines, '\n' ∉ line := by
  induction h with
  | nil => simp
  | cons hline _ ih => exact List.forall_mem_cons.mpr ⟨hline.newline_not_mem, ih⟩

/-- A listing reads as its instructions. Without any line it still holds an empty one. -/
theorem exists_reads (h : List.Forall₂ Encoded.WritesLine instructions lines) (blanks : ℕ) :
    ∃ blanks', Reads (source lines blanks) (clauses instructions blanks') := by
  have hreads : ∀ blanks, lines ++ List.replicate blanks [] ≠ [] →
      Reads (source lines blanks) (clauses instructions blanks) := by
    intro blanks hne
    have hnewline : ∀ line ∈ lines ++ List.replicate blanks [], '\n' ∉ line := by
      intro line hline
      rcases List.mem_append.mp hline with hline | hline
      · exact newline_not_mem_of_mem h line hline
      · simp [List.eq_of_mem_replicate hline]
    rw [Reads, source, String.toList_ofList, SourceLine.ofSource, splitLines_joinLines hne hnewline]
    exact forall₂_lines h blanks 0 0
  by_cases hne : lines ++ List.replicate blanks [] = []
  · obtain ⟨rfl, hblanks⟩ := List.append_eq_nil_iff.mp hne
    have hsource : source [] blanks = source [] 1 := by
      rw [source, source, List.nil_append, hblanks]
      rfl
    rw [hsource]
    exact ⟨1, hreads 1 (by simp)⟩
  · exact ⟨blanks, hreads blanks hne⟩

end Listing

/-- Instructions that are written out line by line assemble to their bytes, from which they can be
told again. If they take more room than there is, the first line that ends outside of memory is
refused. -/
theorem assemble_listing {instructions : List Encoded} {lines : List (List Char)}
    (h : List.Forall₂ Encoded.WritesLine instructions lines) (blanks : ℕ) :
    (Listing.size instructions ≤ 256 → assemble (Listing.source lines blanks) =
      .ok ⟨Listing.image instructions, Listing.mapping instructions, []⟩) ∧
    Listing.disassemble (Listing.image instructions) = some instructions ∧
    (256 < Listing.size instructions → ∃ error,
      assemble (Listing.source lines blanks) = .error error ∧ error.kind = .programTooLarge ∧
        Listing.size (instructions.take error.line) ≤ 256 ∧
        256 < Listing.size (instructions.take (error.line + 1))) := by
  obtain ⟨blanks', hreads⟩ := Listing.exists_reads h blanks
  refine ⟨fun hfits => ?_, Listing.disassemble_image instructions, fun hover => ?_⟩
  · have hwell : Layout.WellFormed (Listing.clauses instructions blanks') :=
      ⟨Listing.distinct_clauses, Listing.total_clauses.trans_le hfits, Listing.bound_clauses⟩
    exact assemble_ok_iff.mpr ⟨_, hreads, hwell, Listing.program_clauses.symm⟩
  · obtain ⟨error, herror, hkind, hbefore, hbehind⟩ := Draft.ofSource_of_overflow hreads
      Listing.distinct_clauses (hover.trans_eq Listing.total_clauses.symm)
    rw [Listing.start_clauses] at hbefore hbehind
    exact ⟨error, bind_error_iff.mpr (.inl herror), hkind, hbefore, hbehind⟩

/-- Three lines in four formats, and a jump so often that the last one does not fit. -/
theorem assemble_listing_sample :
    let copy : Encoded := ⟨.copyLiteral, [0xdb, 5], by decide, rfl⟩
    let increment : Encoded := ⟨.increment, [7], by decide, rfl⟩
    let jump : Encoded := ⟨.jump, [15], by decide, rfl⟩
    assemble "cp [0xdB] ,00101b\n\tInc [007d]\r\nJP 0o17\n" =
        .ok ⟨[2, 0xdb, 5, 7, 7, 11, 15], [(0, 0), (3, 1), (5, 2)], []⟩ ∧
      Listing.disassemble [2, 0xdb, 5, 7, 7, 11, 15] = some [copy, increment, jump] ∧
      ∃ error, assemble (Listing.source (List.replicate 129 "JP 0o17".toList) 0) = .error error ∧
        error.kind = .programTooLarge ∧ error.line = 128 := by
  intro copy increment jump
  have hnil : Blanks [] := by simp [Blanks]
  have hblank : ∀ {c}, Token.isBlank c = true → Blanks [c] := by simp [Blanks]
  have hhexadecimal : Form.Writes 0xdb ("[0xdB]").toList .bracketed :=
    ⟨['0', 'x', 'd', 'B'], .hexadecimal ⟨0, by decide⟩, rfl⟩
  have hbinary : Form.Writes 5 (['0', '0', '1', '0', '1'] ++ ['b']) .bare := .binary ⟨2, by decide⟩
  have hdecimal : Form.Writes 7 ("[007d]").toList .bracketed :=
    ⟨['0', '0', '7'] ++ ['d'], .marked ⟨2, by decide⟩, rfl⟩
  have hoctal : Form.Writes 15 ("0o17").toList .bare := .octal ⟨0, by decide⟩
  have hcopy : copy.WritesLine "cp [0xdB] ,00101b".toList :=
    ⟨.cp, [], ['c', 'p'], [' '], _, rfl, rfl, hnil, rfl, hblank rfl, by simp,
      .more hhexadecimal (hblank (by decide : Token.isBlank ' ' = true)) hnil (.one hbinary hnil)⟩
  have hincrement : increment.WritesLine "\tInc [007d]\r".toList :=
    ⟨.inc, ['\t'], ['I', 'n', 'c'], [' '], _, rfl, rfl, hblank rfl, rfl, hblank rfl, by simp,
      .one hdecimal (hblank (by decide : Token.isBlank '\r' = true))⟩
  have hjump : jump.WritesLine "JP 0o17".toList :=
    ⟨.jp, [], ['J', 'P'], [' '], _, rfl, rfl, hnil, rfl, hblank rfl, by simp, .one hoctal hnil⟩
  have hlisting : List.Forall₂ Encoded.WritesLine [copy, increment, jump]
      ["cp [0xdB] ,00101b".toList, "\tInc [007d]\r".toList, "JP 0o17".toList] :=
    .cons hcopy (.cons hincrement (.cons hjump .nil))
  have hmany : ∀ n, List.Forall₂ Encoded.WritesLine (List.replicate n jump)
      (List.replicate n "JP 0o17".toList) := by
    intro n
    induction n with
    | zero => exact .nil
    | succ n ih => exact .cons hjump ih
  obtain ⟨hok, hdisassemble, -⟩ := assemble_listing hlisting 1
  obtain ⟨error, herror, hkind, hbefore, hbehind⟩ :=
    (assemble_listing (hmany 129) 0).2.2 (by simp [Listing.size, jump, Opcode.width])
  have hsize : ∀ n, Listing.size (List.replicate n jump) = n * 2 := by
    simp [Listing.size, jump, Opcode.width]
  rw [List.take_replicate, hsize] at hbefore hbehind
  exact ⟨hok (by decide), hdisassemble, error, herror, hkind, by omega⟩

end Octet
