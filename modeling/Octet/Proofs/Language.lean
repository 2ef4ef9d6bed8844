import Octet.Proofs.Drafting

/-!
# The language

Which sources assemble. A source is in the language if its lines can be read, if its labels are
declared once and where they are needed, and if its image fits into memory. Whether the image fits
is a matter of all lines together, and a label just behind a full image may be declared but not
used.
-/
namespace Octet

open Results Layout

/-- The assembler makes the program of the layout, of every well-formed source and of no other. -/
theorem assemble_ok_iff {source : String} {program : Program} :
    assemble source = .ok program ↔
      ∃ clauses, Reads source clauses ∧ WellFormed clauses ∧ program = Layout.program clauses := by
  rw [assemble, bind_ok_iff]
  constructor
  · rintro ⟨draft, hdraft, hresolve⟩
    obtain ⟨clauses, hreads, hrepresents⟩ := Draft.exists_reads_of_ofSource hdraft
    obtain ⟨hbound, hprogram⟩ := hrepresents.resolve_ok_iff.mp hresolve
    exact ⟨clauses, hreads, ⟨hrepresents.distinct, hrepresents.fits, hbound⟩, hprogram⟩
  · rintro ⟨clauses, hreads, hwell, hprogram⟩
    obtain ⟨draft, hdraft, hrepresents⟩ :=
      Draft.ofSource_of_reads hreads hwell.distinct hwell.fits
    exact ⟨draft, hdraft, hrepresents.resolve_ok_iff.mpr ⟨hwell.bound, hprogram⟩⟩

/-- A source assembles exactly if every line is a clause of the grammar, no two declared labels are
equal in all but letter case, every label that is used is declared at an address of memory, and the
sizes of all lines add up to at most 256. -/
theorem assembles_iff_in_language (source : String) :
    (∃ program, assemble source = .ok program) ↔
      ∃ clauses, Reads source clauses ∧
        ((declared clauses).Pairwise fun a b => a.folded ≠ b.folded) ∧
        (∀ label, .label label ∈ clauses.flatMap Clause.terms →
          ∃ (line : ℕ) (clause : Clause), clauses[line]? = some clause ∧
            clause.declared = some label ∧ start clauses line ≤ 255) ∧
        (clauses.map Clause.size).sum ≤ 256 := by
  constructor
  · rintro ⟨program, hok⟩
    obtain ⟨clauses, hreads, hwell, _⟩ := assemble_ok_iff.mp hok
    exact ⟨clauses, hreads, hwell.distinct, (bound_iff hwell.distinct).mp hwell.bound, hwell.fits⟩
  · rintro ⟨clauses, hreads, hdistinct, hbound, hfits⟩
    have hwell : WellFormed clauses := ⟨hdistinct, hfits, (bound_iff hdistinct).mpr hbound⟩
    exact ⟨Layout.program clauses, assemble_ok_iff.mpr ⟨clauses, hreads, hwell, rfl⟩⟩

end Octet
