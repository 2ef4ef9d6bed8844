import Octet.Proofs.Language

/-!
# One pass against two

The assembler goes over a source once and fills references in at the end. Its programs are those of
the layout in two passes. The tables of such a program tell its bytes apart: instructions lie behind
one another without overlap, and what lies between them is data.
-/
namespace Octet

open Layout

/-- A byte of the image belongs to the instruction whose opcode is at this offset. -/
def Program.Covers (program : Program) (offset i : ℕ) : Prop :=
  ∃ op : Opcode, program.code[offset]? = some op.toByte ∧ offset ≤ i ∧ i < offset + op.width

/-- A program is what two passes make of these clauses. -/
structure Program.TwoPass (program : Program) (clauses : List Clause) : Prop where
  /-- The second pass writes line after line. -/
  code : program.code = clauses.flatMap fun clause => clause.terms.map (value clauses)
  /-- A label that is used stands for the start of the one line that declares it. -/
  value : ∀ label, Uses clauses label → ∃! line, ∃ clause, clauses[line]? = some clause ∧
    clause.declared = some label ∧ (Layout.value clauses (.label label)).toNat = start clauses line
  labels : program.labels = Layout.labels clauses
  mapping : program.mapping = Layout.mapping clauses
  increasing : program.mapping.Pairwise fun a b => a.1 < b.1 ∧ a.2 < b.2
  opcode : ∀ entry ∈ program.mapping, ∃ op : Opcode, op ≠ .halt ∧ op.toByte ≠ 0 ∧
    program.code[entry.1]? = some op.toByte ∧ entry.1 + op.width ≤ program.code.length
  disjoint : program.mapping.Pairwise fun a b =>
    ∀ i, ¬ (program.Covers a.1 i ∧ program.Covers b.1 i)
  /-- What no instruction covers comes from a line with data. -/
  data : ∀ i < program.code.length, (∀ entry ∈ program.mapping, ¬ program.Covers entry.1 i) →
    ∃ line clause statement, clauses[line]? = some clause ∧ clause.statement = some statement ∧
      statement.mnemonic = .db ∧ start clauses line ≤ i ∧ i < start clauses line + statement.size

namespace Layout

variable {clauses : List Clause}

/-- The opcode of a written instruction is at the start of its line. -/
lemma getElem?_code_start {line : ℕ} {clause : Clause} {phrase : Phrase}
    (hclause : clauses[line]? = some clause) (hphrase : clause.phrase? = some phrase) :
    (code clauses)[start clauses line]? = some phrase.opcode.toByte := by
  have hsize := Clause.size_of_phrase? hphrase
  have hbyte := getElem?_code hclause (i := 0) (hsize ▸ phrase.opcode.width_pos)
  simpa [Clause.terms_of_phrase? hphrase, value] using hbyte

/-- The instruction of a line covers exactly the bytes of the line. -/
lemma covers_start_iff {line : ℕ} {clause : Clause} {phrase : Phrase}
    (hclause : clauses[line]? = some clause) (hphrase : clause.phrase? = some phrase) {i : ℕ} :
    (program clauses).Covers (start clauses line) i ↔
      start clauses line ≤ i ∧ i < start clauses (line + 1) := by
  rw [start_succ hclause, Clause.size_of_phrase? hphrase]
  constructor
  · rintro ⟨op, hop, hrange⟩
    have hbyte := (getElem?_code_start hclause hphrase).symm.trans hop
    rwa [← Opcode.toByte_inj.mp (Option.some.inj hbyte)] at hrange
  · intro hrange
    exact ⟨phrase.opcode, getElem?_code_start hclause hphrase, hrange⟩

/-- The instructions of two lines have no byte in common. -/
lemma disjoint_of_mem {a b : ℕ × ℕ} (ha : a ∈ mapping clauses) (hb : b ∈ mapping clauses)
    (hline : a.2 < b.2) (i : ℕ) :
    ¬ ((program clauses).Covers a.1 i ∧ (program clauses).Covers b.1 i) := by
  obtain ⟨c, p, hc, hp, hstart⟩ := mem_mapping.mp ha
  obtain ⟨d, q, hd, hq, hstart'⟩ := mem_mapping.mp hb
  rw [hstart, hstart', covers_start_iff hc hp, covers_start_iff hd hq]
  have hbehind : start clauses (a.2 + 1) ≤ start clauses b.2 := start_mono hline
  omega

lemma existsUnique_line (hwell : WellFormed clauses) {label : Label} (huse : Uses clauses label) :
    ∃! line, ∃ clause, clauses[line]? = some clause ∧ clause.declared = some label ∧
      (value clauses (.label label)).toNat = start clauses line := by
  obtain ⟨hmem, haddress⟩ := hwell.bound label huse
  obtain ⟨line, clause, hclause, hdeclared⟩ := exists_line_of_mem_declared hmem
  refine ⟨line, ⟨clause, hclause, hdeclared, ?_⟩, ?_⟩
  · rw [value, UInt8.toNat_ofNat_of_lt' haddress, address_eq_start hwell.distinct hclause hdeclared]
  · rintro other ⟨clause', hclause', hdeclared', _⟩
    rw [← findIdx_declared hwell.distinct hclause hdeclared,
      findIdx_declared hwell.distinct hclause' hdeclared']

/-- A line whose bytes no instruction covers holds data. -/
lemma mnemonic_eq_db {statement : Statement} (h : statement.phrase? = none) :
    statement.mnemonic = .db := by
  cases statement with
  | data | text => rfl
  | instruction => cases h

theorem twoPass_program (hwell : WellFormed clauses) : (program clauses).TwoPass clauses where
  code := rfl
  value _ huse := existsUnique_line hwell huse
  labels := rfl
  mapping := rfl
  increasing := mapping_pairwise clauses
  opcode := by
    rintro ⟨offset, line⟩ hentry
    obtain ⟨clause, phrase, hclause, hphrase, rfl⟩ := mem_mapping.mp hentry
    have hbyte : phrase.opcode.toByte ≠ 0 := fun h =>
      phrase.opcode_ne_halt (Opcode.toByte_inj.mp h)
    refine ⟨phrase.opcode, phrase.opcode_ne_halt, hbyte, getElem?_code_start hclause hphrase, ?_⟩
    dsimp only [program]
    rw [length_code, ← Clause.size_of_phrase? hphrase, ← start_succ hclause]
    exact start_le_total _
  disjoint := (mapping_pairwise clauses).imp_of_mem fun ha hb h => disjoint_of_mem ha hb h.2
  data := by
    intro i hi huncovered
    dsimp only [program] at hi
    rw [length_code] at hi
    obtain ⟨line, clause, hclause, hstart, hend⟩ := exists_line hi
    cases hphrase : clause.phrase? with
    | some phrase =>
      have hentry := mem_mapping.mpr ⟨clause, phrase, hclause, hphrase, rfl⟩
      have hcovers := (covers_start_iff hclause hphrase).mpr ⟨hstart, start_succ hclause ▸ hend⟩
      exact absurd hcovers (huncovered _ hentry)
    | none =>
      obtain ⟨declared, _ | statement⟩ := clause
      · exact absurd hend (not_lt.mpr hstart)
      · exact ⟨line, _, statement, hclause, rfl, mnemonic_eq_db hphrase, hstart, hend⟩

end Layout

/-- Whatever assembles is laid out in two passes over the one reading of its source. -/
theorem assemble_eq_two_pass {source : String} {program : Program}
    (hok : assemble source = .ok program) :
    ∃ clauses, Reads source clauses ∧ (∀ other, Reads source other → other = clauses) ∧
      program.TwoPass clauses := by
  obtain ⟨clauses, hreads, hwell, rfl⟩ := assemble_ok_iff.mp hok
  exact ⟨clauses, hreads, fun _ hother => hother.unique hreads, twoPass_program hwell⟩

/-- References forward and backward, two labels at one offset, and labels as data. -/
theorem assemble_eq_two_pass_sample :
    let source := "a: CP [0], [b]\njz C\nx:\nb: DB a\nDB \"hi\" ; text\nC: Db C"
    let program : Program := ⟨[1, 0, 5, 13, 8, 0, 104, 105, 8], [(0, 0), (3, 1)],
      [(⟨['a'], rfl⟩, 0), (⟨['x'], rfl⟩, 5), (⟨['b'], rfl⟩, 5), (⟨['C'], rfl⟩, 8)]⟩
    assemble source = .ok program ∧ ∃ clauses, Reads source clauses ∧
      (∀ other, Reads source other → other = clauses) ∧ program.TwoPass clauses := by
  have hok : assemble "a: CP [0], [b]\njz C\nx:\nb: DB a\nDB \"hi\" ; text\nC: Db C" =
      .ok ⟨[1, 0, 5, 13, 8, 0, 104, 105, 8], [(0, 0), (3, 1)],
        [(⟨['a'], rfl⟩, 0), (⟨['x'], rfl⟩, 5), (⟨['b'], rfl⟩, 5), (⟨['C'], rfl⟩, 8)]⟩ := by
    decide +kernel
  exact ⟨hok, assemble_eq_two_pass hok⟩

end Octet
