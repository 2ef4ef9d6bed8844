import Octet.Proofs.Semantics
import Octet.Proofs.TwoPass

/-!
# Sources against the processor

What is written on a line is what the processor does when it comes to that line. The assembler
chooses opcodes and writes operands, the processor reads them back, and neither knows the other. In
between lie only the bytes of the image, and they may be surrounded by anything.
-/
namespace Octet

open Results Layout

/-- An amount in brackets names a cell, and a bare one is a literal. -/
def Amount.read (value : Term → UInt8) : Amount → Value
  | .literal term => .literal (value term)
  | .cell term => .cell (value term)

/-- The instruction that is written, once it is known what each term stands for. -/
def Phrase.instruction (value : Term → UInt8) : Phrase → Instruction
  | .binary .copy target amount => .copy (value target) (amount.read value)
  | .binary .add target amount => .add (value target) (amount.read value)
  | .binary .subtract target amount => .subtract (value target) (amount.read value)
  | .binary .compare target amount => .compare (value target) (amount.read value)
  | .unary .increment operand => .increment (value operand)
  | .unary .decrement operand => .decrement (value operand)
  | .unary .printDecimal operand => .printDecimal (value operand)
  | .unary .printText operand => .printText (value operand)
  | .jump condition target => .jump condition (value target)

/-- Decoding the bytes of a written instruction gives it back. A byte behind them is ignored. -/
theorem Phrase.decode?_opcode {phrase : Phrase} {value : Term → UInt8} {a b : UInt8}
    (h : phrase.operands.map value <+: [a, b]) :
    Instruction.decode? phrase.opcode a b = some (phrase.instruction value) := by
  rcases phrase with ⟨operation, target, amount⟩ | ⟨operation, operand⟩ | ⟨condition, target⟩
  · obtain ⟨rfl, rfl⟩ : value target = a ∧ value amount.term = b := by
      simpa [operands] using h
    cases operation <;> cases amount <;> rfl
  · obtain rfl : value operand = a := by simpa [operands] using h
    cases operation <;> rfl
  · obtain rfl : value target = a := by simpa [operands] using h
    cases condition <;> rfl

variable {clauses : List Clause} {line : ℕ} {clause : Clause} {phrase : Phrase}

/-- The cells of an instruction hold what the image has there. -/
def Program.Intact (program : Program) (offset width : ℕ) (memory : Memory) : Prop :=
  ∀ a : Address, offset ≤ a.val → a.val < offset + width →
    program.code[a.val]? = some (memory.cell a)

/-- A loaded image is in the first cells. -/
lemma Memory.getElem?_of_loadImage {memory memory' : Memory} {image : List UInt8}
    (h : memory.loadImage image = .ok memory') {a : Address} (ha : a.val < image.length) :
    image[a.val]? = some (memory'.cell a) := by
  obtain ⟨_, hcells⟩ := ite_ok_iff.mp h
  rw [← Except.ok.inj hcells, cell, Fin.getElem_fin, Vector.getElem_ofFn]
  simp [ha]

/-- A line is found in memory byte by byte. -/
lemma Layout.byteAt_of_intact {memory : Memory} (hfits : total clauses ≤ 256)
    (hclause : clauses[line]? = some clause)
    (hintact : (program clauses).Intact (start clauses line) clause.size memory) {i : ℕ}
    {term : Term} (hterm : clause.terms[i]? = some term) :
    memory.byteAt (start clauses line + i) = value clauses term := by
  have hi : i < clause.size := by
    simpa using (List.getElem?_eq_some_iff.mp hterm).1
  have hend : start clauses (line + 1) ≤ total clauses := start_le_total _
  rw [start_succ hclause] at hend
  have hlt : start clauses line + i < 256 := by omega
  have hbyte := hintact ⟨_, hlt⟩ (Nat.le_add_right _ _) (by simpa using hi)
  rw [memory.byteAt_of_lt hlt]
  dsimp only [program] at hbyte
  rw [getElem?_code hclause hi, hterm] at hbyte
  exact (Option.some.inj hbyte).symm

/-- Come to the start of a line, the processor does what is written there. -/
theorem Layout.carriesOut_phrase {cpu : Cpu} {memory : Memory} (hfits : total clauses ≤ 256)
    (hclause : clauses[line]? = some clause) (hphrase : clause.phrase? = some phrase)
    (hintact : (program clauses).Intact (start clauses line) phrase.opcode.width memory)
    (hfaulted : cpu.faulted = false) (hip : cpu.ip.val = start clauses line) :
    cpu.CarriesOut memory (phrase.instruction (value clauses))
      ((phrase.instruction (value clauses)).meaning (start clauses (line + 1))
        (State.of cpu memory)) := by
  have hsize := Clause.size_of_phrase? hphrase
  have hterms := Clause.terms_of_phrase? hphrase
  have hnext := start_succ hclause
  have hend : start clauses (line + 1) ≤ total clauses := start_le_total _
  rw [← hsize] at hintact
  have hopcode : memory.byteAt cpu.ip = phrase.opcode.toByte := by
    have hterm : clause.terms[0]? = some (.byte phrase.opcode.toByte) := by rw [hterms]; rfl
    rw [hip]
    exact byteAt_of_intact hfits hclause hintact hterm
  have hoperands : phrase.operands.map (value clauses) <+:
      [memory.byteAt (cpu.ip + 1), memory.byteAt (cpu.ip + 2)] := by
    have hlength := phrase.length_operands
    have hwidth := phrase.opcode.width_le
    rw [List.prefix_iff_getElem?]
    intro i hi
    rw [List.length_map] at hi
    have hterm : clause.terms[i + 1]? = some phrase.operands[i] := by
      rw [hterms, List.getElem?_cons_succ, List.getElem?_eq_getElem hi]
    have hbyte := byteAt_of_intact hfits hclause hintact hterm
    rw [← hip] at hbyte
    rw [List.getElem_map, ← hbyte]
    obtain rfl | rfl : i = 0 ∨ i = 1 := by omega
    · rfl
    · rfl
  rw [hnext, hsize, ← hip]
  exact Cpu.carriesOut_of_decode hfaulted hopcode (by omega) (Phrase.decode?_opcode hoperands)

/-- Assembler and processor agree. Wherever an assembled program has an instruction, its line holds
that instruction, and a processor that comes to its bytes carries it out and goes on to where the
following line starts. Labels stand for the starts of the lines that declare them. -/
theorem step_carries_out_source {source : String} {program : Program}
    (hok : assemble source = .ok program) :
    ∃ clauses, Reads source clauses ∧ (∀ other, Reads source other → other = clauses) ∧
      (∀ label, Uses clauses label → ∃ line clause, clauses[line]? = some clause ∧
        clause.declared = some label ∧ (value clauses (.label label)).toNat = start clauses line) ∧
      ∀ offset line, (offset, line) ∈ program.mapping →
        offset = start clauses line ∧
        ∃ clause phrase, clauses[line]? = some clause ∧
          clause.statement = some (.instruction phrase) ∧
          ∀ (cpu : Cpu) (memory : Memory), cpu.faulted = false → cpu.ip.val = offset →
            program.Intact offset phrase.opcode.width memory →
            cpu.CarriesOut memory (phrase.instruction (value clauses))
              ((phrase.instruction (value clauses)).meaning (start clauses (line + 1))
                (State.of cpu memory)) := by
  obtain ⟨clauses, hreads, hwell, rfl⟩ := assemble_ok_iff.mp hok
  refine ⟨clauses, hreads, fun _ hother => hother.unique hreads, fun label huse => ?_,
    fun offset line hentry => ?_⟩
  · obtain ⟨line, hline, _⟩ := existsUnique_line hwell huse
    exact ⟨line, hline⟩
  · obtain ⟨clause, phrase, hclause, hphrase, rfl⟩ := mem_mapping.mp hentry
    refine ⟨rfl, clause, phrase, hclause, Clause.phrase?_eq_some_iff.mp hphrase, ?_⟩
    intro cpu memory hfaulted hip hintact
    exact carriesOut_phrase hwell.fits hclause hphrase hintact hfaulted hip

/-- An addition with a label in brackets, at the start of a freshly loaded image. -/
theorem step_carries_out_source_sample :
    ∃ program memory instruction next,
      assemble "Add [1], [x]\nx: DB 200" = .ok program ∧
        Memory.initial.loadImage program.code = .ok memory ∧
        Cpu.initial.CarriesOut memory instruction
          (instruction.meaning next (State.of .initial memory)) := by
  have hok : assemble "Add [1], [x]\nx: DB 200" =
      .ok ⟨[3, 1, 3, 200], [(0, 0)], [(⟨['x'], rfl⟩, 3)]⟩ := by decide +kernel
  obtain ⟨memory, hload⟩ : ∃ memory, Memory.initial.loadImage [3, 1, 3, 200] = .ok memory :=
    ⟨_, rfl⟩
  obtain ⟨clauses, _, _, _, hlines⟩ := step_carries_out_source hok
  obtain ⟨_, clause, phrase, _, _, hstep⟩ := hlines 0 0 (List.mem_singleton_self _)
  have hwidth := phrase.opcode.width_le
  have hintact := fun (a : Address) (_ : 0 ≤ a.val) (hlt : a.val < 0 + phrase.opcode.width) =>
    Memory.getElem?_of_loadImage hload (a := a) (by simp only [List.length_cons]; omega)
  exact ⟨_, memory, _, _, hok, hload, hstep .initial memory rfl rfl hintact⟩

end Octet
