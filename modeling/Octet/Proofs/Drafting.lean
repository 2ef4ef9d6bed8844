import Octet.Proofs.Reading

/-!
# Drafts of a source

The draft that grows line by line agrees with the layout of the clauses read so far: cell by cell,
entry by entry. One line keeps this up, so a whole source does. At the end references are filled in
with the starts of the lines that declare them.
-/
namespace Octet

open Results Layout

/-! ### Steps -/

namespace Draft

variable {draft draft' : Draft} {line : ℕ} {tokens : List Token}

/-- With a label bound to the present end of the image. -/
def withLabel (draft : Draft) (label : Label) : Draft :=
  { draft with labels := draft.labels ++ [(label, draft.cells.length)] }

theorem declare_ok_iff {label : Label} {span : Span} :
    draft.declare label line span = .ok draft' ↔
      ¬ draft.Declares label ∧ draft' = draft.withLabel label := by
  unfold declare
  split_ifs with h
  · simp [h]
  · simp [h, withLabel, eq_comm]

/-- What a draft becomes if a statement or nothing is added to it. -/
theorem addStatement_cases (h : draft.addStatement line tokens = .ok draft') :
    (tokens = [] ∧ draft' = draft) ∨ ∃ head rest emission, tokens = head :: rest ∧
      Emission.ofTokens line head rest = .ok emission ∧ draft' = draft.emit line emission ∧
      draft'.Fits := by
  cases tokens with
  | nil => exact .inl ⟨rfl, (Except.ok.inj h).symm⟩
  | cons head rest =>
    obtain ⟨emission, hemission, hchecked⟩ := bind_ok_iff.mp h
    obtain ⟨hfits, hdraft⟩ := ite_ok_iff.mp hchecked
    obtain rfl := Except.ok.inj hdraft
    exact .inr ⟨head, rest, emission, rfl, hemission, rfl, hfits⟩

lemma splitDeclaration_some {word : Token} {rest : List Token}
    (h : splitDeclaration tokens = (some word, rest)) :
    ∃ colon, tokens = word :: colon :: rest ∧ word.kind = .word ∧ colon.kind = .colon := by
  unfold splitDeclaration at h
  split at h
  · split_ifs at h with hkinds <;> cases h
    exact ⟨_, rfl, hkinds⟩
  · cases h

lemma splitDeclaration_none {rest : List Token} (h : splitDeclaration tokens = (none, rest)) :
    tokens = rest := by
  unfold splitDeclaration at h
  split at h
  · split_ifs at h <;> cases h
    rfl
  · cases h
    rfl

/-- A line adds a statement, or it adds a label and then a statement. -/
theorem addTokens_cases (h : draft.addTokens line tokens = .ok draft') :
    (splitDeclaration tokens = (none, tokens) ∧ draft.addStatement line tokens = .ok draft') ∨
      ∃ word colon rest label, tokens = word :: colon :: rest ∧
        splitDeclaration tokens = (some word, rest) ∧ Label.ofChars? word.text = some label ∧
        ¬ draft.Declares label ∧ (draft.withLabel label).addStatement line rest = .ok draft' := by
  unfold addTokens at h
  split at h
  · next rest hsplit =>
    obtain rfl := splitDeclaration_none hsplit
    exact .inl ⟨hsplit, h⟩
  · next word rest hsplit =>
    obtain ⟨colon, rfl, _⟩ := splitDeclaration_some hsplit
    split at h
    · cases h
    · next label hlabel =>
      obtain ⟨declared, hdeclare, hstatement⟩ := bind_ok_iff.mp h
      obtain ⟨hfree, rfl⟩ := declare_ok_iff.mp hdeclare
      exact .inr ⟨word, colon, rest, label, rfl, hsplit, hlabel, hfree, hstatement⟩

end Draft

/-! ### Agreement with the layout -/

/-- The draft holds what these clauses ask for, and has not overrun memory. -/
structure Draft.Represents (draft : Draft) (clauses : List Clause) : Prop where
  cells : draft.cells.map Cell.term = clauses.flatMap Clause.terms
  mapping : draft.mapping = Layout.mapping clauses
  labels : draft.labels = Layout.labels clauses
  distinct : Distinct clauses
  fits : total clauses ≤ 256

namespace Draft

variable {draft draft' : Draft} {clauses : List Clause}

theorem represents_empty : empty.Represents [] where
  cells := rfl
  mapping := rfl
  labels := rfl
  distinct := .nil
  fits := by decide

lemma Represents.length_cells (h : draft.Represents clauses) :
    draft.cells.length = total clauses := by
  have hlength := congrArg List.length h.cells
  simpa [List.length_flatMap, total] using hlength

/-! ### One line -/

lemma Represents.declares_iff (h : draft.Represents clauses) {label : Label} :
    draft.Declares label ↔ ∃ other ∈ declared clauses, other.folded = label.folded := by
  rw [Draft.Declares, h.labels, ← map_fst_labels]
  simp

/-- A line without declaration and statement adds nothing. -/
lemma Represents.blank (h : draft.Represents clauses) :
    draft.Represents (clauses ++ [⟨none, none⟩]) where
  cells := by simp [h.cells, Clause.terms]
  mapping := by simp [h.mapping, mapping_concat, Clause.phrase?]
  labels := by simp [h.labels, labels_concat]
  distinct := by simpa [distinct_concat] using h.distinct
  fits := by simpa [total_concat, Clause.size] using h.fits

lemma Represents.withLabel (h : draft.Represents clauses) {label : Label}
    (hfree : ¬ draft.Declares label) :
    (draft.withLabel label).Represents (clauses ++ [⟨some label, none⟩]) := by
  rw [h.declares_iff] at hfree
  push Not at hfree
  exact {
    cells := by simp [Draft.withLabel, h.cells, Clause.terms]
    mapping := by simp [Draft.withLabel, h.mapping, mapping_concat, Clause.phrase?]
    labels := by simp [Draft.withLabel, h.labels, labels_concat, h.length_cells]
    distinct := by simpa [distinct_concat] using ⟨h.distinct, hfree⟩
    fits := by simpa [total_concat, Clause.size] using h.fits }

/-- Whether an emission fits is told from the sizes of the clauses. -/
lemma Represents.fits_emit_iff {label : Option Label}
    (h : draft.Represents (clauses ++ [⟨label, none⟩])) {emission : Emission}
    {statement : Statement} (hrenders : emission.Renders statement) (line : ℕ) :
    (draft.emit line emission).Fits ↔ total (clauses ++ [⟨label, some statement⟩]) ≤ 256 := by
  have hsize : emission.cells.length = statement.size := by
    rw [← statement.length_terms, ← hrenders.1, List.length_map]
  have hlength := h.length_cells
  simp only [total_concat, Clause.size, Option.elim] at hlength ⊢
  simp only [Draft.Fits, Draft.emit, List.length_append, hsize, hlength, Nat.add_zero]

/-- A statement goes behind everything that is there. -/
lemma Represents.emit {label : Option Label} (h : draft.Represents (clauses ++ [⟨label, none⟩]))
    {emission : Emission} {statement : Statement} (hrenders : emission.Renders statement)
    (hfits : (draft.emit clauses.length emission).Fits) :
    (draft.emit clauses.length emission).Represents (clauses ++ [⟨label, some statement⟩]) := by
  have hcells : draft.cells.map Cell.term = clauses.flatMap Clause.terms := by
    simpa [Clause.terms] using h.cells
  have hlength : draft.cells.length = total clauses := by
    simpa [total_concat, Clause.size] using h.length_cells
  have hmapping : draft.mapping = Layout.mapping clauses := by
    simpa [mapping_concat, Clause.phrase?] using h.mapping
  have htotal := (h.fits_emit_iff hrenders _).mp hfits
  obtain ⟨hterms, hopcode⟩ := hrenders
  exact {
    cells := by simp [Draft.emit, hcells, hterms, Clause.terms]
    mapping := by
      simp only [Draft.emit, hmapping, hlength, mapping_concat, Clause.phrase?, Option.bind_some]
      cases emission <;> cases hphrase : statement.phrase? <;>
        simp [hphrase, Emission.opcode?] at hopcode ⊢
    labels := by simpa [Draft.emit, labels_concat] using h.labels
    distinct := by simpa [distinct_concat] using h.distinct
    fits := htotal }

theorem Represents.of_addStatement {label : Option Label}
    (h : draft.Represents (clauses ++ [⟨label, none⟩])) {tokens : List Token}
    (hok : draft.addStatement clauses.length tokens = .ok draft') :
    ∃ statement, StatementSpelledBy tokens statement ∧
      draft'.Represents (clauses ++ [⟨label, statement⟩]) := by
  rcases addStatement_cases hok with ⟨rfl, rfl⟩ | ⟨head, rest, emission, rfl, hemission, rfl, hfits⟩
  · exact ⟨none, rfl, h⟩
  · obtain ⟨statement, hspelled, hrenders⟩ := Emission.renders_of_ofTokens hemission
    exact ⟨some statement, ⟨head, rest, rfl, hspelled⟩, h.emit hrenders hfits⟩

/-- Every line that is added is a clause of the grammar. -/
theorem Represents.of_addTokens (h : draft.Represents clauses) {tokens : List Token}
    (hok : draft.addTokens clauses.length tokens = .ok draft') :
    ∃ clause : Clause, clause.SpelledBy tokens ∧ draft'.Represents (clauses ++ [clause]) := by
  rcases addTokens_cases hok with
    ⟨hsplit, hadded⟩ | ⟨word, colon, rest, label, rfl, hsplit, hlabel, hfree, hadded⟩
  · obtain ⟨statement, hspelled, hdraft⟩ := h.blank.of_addStatement hadded
    exact ⟨⟨none, statement⟩,
      Clause.spelledBy_iff.mpr (by rw [hsplit]; exact ⟨rfl, hspelled⟩), hdraft⟩
  · obtain ⟨statement, hspelled, hdraft⟩ := (h.withLabel hfree).of_addStatement hadded
    have hchars := (Label.ofChars?_eq_some_iff.mp hlabel).symm
    exact ⟨⟨some label, statement⟩,
      Clause.spelledBy_iff.mpr (by rw [hsplit]; exact ⟨congrArg some hchars, hspelled⟩), hdraft⟩

theorem Represents.addStatement_of_spelledBy {label : Option Label}
    (h : draft.Represents (clauses ++ [⟨label, none⟩])) {tokens : List Token}
    {statement : Option Statement} (hspelled : StatementSpelledBy tokens statement)
    (hfits : total (clauses ++ [⟨label, statement⟩]) ≤ 256) :
    ∃ draft', draft.addStatement clauses.length tokens = .ok draft' := by
  cases statement with
  | none =>
    obtain rfl : tokens = [] := hspelled
    exact ⟨draft, rfl⟩
  | some statement =>
    obtain ⟨head, rest, rfl, hstatement⟩ := hspelled
    obtain ⟨emission, hemission, hrenders⟩ :=
      Emission.ofTokens_of_spelledBy hstatement clauses.length
    exact ⟨_, bind_ok_iff.mpr ⟨emission, hemission,
      if_pos ((h.fits_emit_iff hrenders _).mpr hfits)⟩⟩

/-- Behind the last byte that fits, a statement finds no place. -/
theorem Represents.addStatement_of_overflow {label : Option Label}
    (h : draft.Represents (clauses ++ [⟨label, none⟩])) {tokens : List Token}
    {statement : Option Statement} (hspelled : StatementSpelledBy tokens statement)
    (hover : 256 < total (clauses ++ [⟨label, statement⟩])) :
    ∃ span, draft.addStatement clauses.length tokens =
      .error ⟨.programTooLarge, clauses.length, span⟩ := by
  cases statement with
  | none => exact absurd h.fits hover.not_ge
  | some statement =>
    obtain ⟨head, rest, rfl, hstatement⟩ := hspelled
    obtain ⟨emission, hemission, hrenders⟩ :=
      Emission.ofTokens_of_spelledBy hstatement clauses.length
    have hfits : ¬ (draft.emit clauses.length emission).Fits := by
      rw [h.fits_emit_iff hrenders]
      exact hover.not_ge
    exact ⟨head.span, bind_error_iff.mpr (.inr ⟨emission, hemission, if_neg hfits⟩)⟩

/-- A clause whose label is free is a statement that is added behind the label. -/
lemma Represents.addTokens_eq (h : draft.Represents clauses) {tokens : List Token}
    {clause : Clause} (hspelled : clause.SpelledBy tokens)
    (hdistinct : Distinct (clauses ++ [clause])) :
    ∃ (labelled : Draft) (rest : List Token), draft.addTokens clauses.length tokens =
        labelled.addStatement clauses.length rest ∧
      labelled.Represents (clauses ++ [⟨clause.declared, none⟩]) ∧
      StatementSpelledBy rest clause.statement := by
  obtain ⟨label, statement⟩ := clause
  obtain ⟨hdeclared, hstatement⟩ := Clause.spelledBy_iff.mp hspelled
  unfold Draft.addTokens
  generalize Draft.splitDeclaration tokens = split at hdeclared hstatement
  obtain ⟨word, rest⟩ := split
  cases word with
  | none =>
    obtain rfl : label = none := (Option.map_eq_none_iff.mp hdeclared.symm)
    exact ⟨draft, rest, rfl, h.blank, hstatement⟩
  | some word =>
    obtain ⟨label, rfl, htext⟩ := Option.map_eq_some_iff.mp hdeclared.symm
    have hfree : ¬ draft.Declares label := by
      rw [h.declares_iff]
      rintro ⟨other, hother, heq⟩
      exact (distinct_concat.mp hdistinct).2 label rfl other hother heq
    have hdeclare : draft.declare label clauses.length word.span = .ok (draft.withLabel label) :=
      declare_ok_iff.mpr ⟨hfree, rfl⟩
    refine ⟨draft.withLabel label, rest, ?_, h.withLabel hfree, hstatement⟩
    dsimp only
    rw [Label.ofChars?_eq_some_iff.mpr htext]
    dsimp only
    rw [hdeclare]
    rfl

/-- Every clause of the grammar is added, unless its label is taken or the image gets too long. -/
theorem Represents.addTokens_of_spelledBy (h : draft.Represents clauses) {tokens : List Token}
    {clause : Clause} (hspelled : clause.SpelledBy tokens)
    (hdistinct : Distinct (clauses ++ [clause])) (hfits : total (clauses ++ [clause]) ≤ 256) :
    ∃ draft', draft.addTokens clauses.length tokens = .ok draft' ∧
      draft'.Represents (clauses ++ [clause]) := by
  obtain ⟨labelled, rest, hadded, hlabelled, hstatement⟩ := h.addTokens_eq hspelled hdistinct
  obtain ⟨draft', hdraft'⟩ := hlabelled.addStatement_of_spelledBy hstatement hfits
  rw [hdraft'] at hadded
  obtain ⟨other, hother, hrepresents⟩ := h.of_addTokens hadded
  exact ⟨draft', hadded, hspelled.unique hother ▸ hrepresents⟩

/-! ### All lines -/

theorem Represents.of_foldlM {pieces : List (List Char)} (h : draft.Represents clauses)
    (offset : ℕ)
    (hok : (SourceLine.locate clauses.length offset pieces).foldlM addLine draft = .ok draft') :
    ∃ more, List.Forall₂ (fun line clause => Clause.SpelledBy line.tokens clause)
        (SourceLine.locate clauses.length offset pieces) more ∧
      draft'.Represents (clauses ++ more) := by
  induction pieces generalizing draft clauses offset with
  | nil =>
    obtain rfl := Except.ok.inj hok
    exact ⟨[], .nil, by simpa using h⟩
  | cons piece pieces ih =>
    -- the number of a line is the number of clauses that were read in front of it
    rw [SourceLine.locate, List.foldlM_cons] at hok
    obtain ⟨middle, hmiddle, hrest⟩ := bind_ok_iff.mp hok
    obtain ⟨clause, hclause, hrepresents⟩ := h.of_addTokens hmiddle
    have hnumber : clauses.length + 1 = (clauses ++ [clause]).length := by simp
    rw [hnumber] at hrest
    obtain ⟨more, hmore, hdraft'⟩ := ih hrepresents _ hrest
    rw [SourceLine.locate, hnumber]
    exact ⟨clause :: more, .cons hclause hmore, by simpa using hdraft'⟩

theorem Represents.foldlM_of_spelledBy {pieces : List (List Char)} (h : draft.Represents clauses)
    (offset : ℕ) {more : List Clause}
    (hspelled : List.Forall₂ (fun line clause => Clause.SpelledBy line.tokens clause)
      (SourceLine.locate clauses.length offset pieces) more)
    (hdistinct : Distinct (clauses ++ more)) (hfits : total (clauses ++ more) ≤ 256) :
    ∃ draft', (SourceLine.locate clauses.length offset pieces).foldlM addLine draft = .ok draft' ∧
      draft'.Represents (clauses ++ more) := by
  induction pieces generalizing draft clauses offset more with
  | nil =>
    cases hspelled
    exact ⟨draft, rfl, by simpa using h⟩
  | cons piece pieces ih =>
    rw [SourceLine.locate] at hspelled ⊢
    obtain ⟨clause, more, hclause, hmore, rfl⟩ := List.forall₂_cons_left_iff.mp hspelled
    have hsplit : clauses ++ clause :: more = (clauses ++ [clause]) ++ more := by simp
    have hnumber : clauses.length + 1 = (clauses ++ [clause]).length := by simp
    rw [hsplit] at hdistinct hfits ⊢
    rw [hnumber] at hmore ⊢
    obtain ⟨middle, hmiddle, hrepresents⟩ := h.addTokens_of_spelledBy hclause hdistinct.of_append
      ((total_le_append _ more).trans hfits)
    obtain ⟨draft', hdraft', hfinal⟩ := ih hrepresents _ hmore hdistinct hfits
    refine ⟨draft', ?_, hfinal⟩
    rw [List.foldlM_cons]
    exact bind_ok_iff.mpr ⟨middle, hmiddle, hdraft'⟩

/-- If all lines together are too long, the first one that ends outside of memory is refused. -/
theorem Represents.foldlM_of_overflow {pieces : List (List Char)} (h : draft.Represents clauses)
    (offset : ℕ) {more : List Clause}
    (hspelled : List.Forall₂ (fun line clause => Clause.SpelledBy line.tokens clause)
      (SourceLine.locate clauses.length offset pieces) more)
    (hdistinct : Distinct (clauses ++ more)) (hover : 256 < total (clauses ++ more)) :
    ∃ error, (SourceLine.locate clauses.length offset pieces).foldlM addLine draft =
        .error error ∧
      error.kind = .programTooLarge ∧ start (clauses ++ more) error.line ≤ 256 ∧
      256 < start (clauses ++ more) (error.line + 1) := by
  induction pieces generalizing draft clauses offset more with
  | nil =>
    cases hspelled
    rw [List.append_nil] at hover
    exact absurd h.fits hover.not_ge
  | cons piece pieces ih =>
    rw [SourceLine.locate] at hspelled ⊢
    obtain ⟨clause, more, hclause, hmore, rfl⟩ := List.forall₂_cons_left_iff.mp hspelled
    have hsplit : clauses ++ clause :: more = (clauses ++ [clause]) ++ more := by simp
    have hnumber : clauses.length + 1 = (clauses ++ [clause]).length := by simp
    rw [hsplit] at hdistinct hover ⊢
    rw [List.foldlM_cons]
    by_cases hfits : total (clauses ++ [clause]) ≤ 256
    · obtain ⟨middle, hmiddle, hrepresents⟩ :=
        h.addTokens_of_spelledBy hclause hdistinct.of_append hfits
      rw [hnumber] at hmore ⊢
      obtain ⟨error, herror, hplace⟩ := ih hrepresents _ hmore hdistinct hover
      exact ⟨error, bind_error_iff.mpr (.inr ⟨middle, hmiddle, herror⟩), hplace⟩
    · obtain ⟨labelled, rest, hadded, hlabelled, hstatement⟩ :=
        h.addTokens_eq hclause hdistinct.of_append
      obtain ⟨span, hspan⟩ := hlabelled.addStatement_of_overflow hstatement (not_le.mp hfits)
      rw [hspan] at hadded
      refine ⟨_, bind_error_iff.mpr (.inl hadded), rfl, ?_, ?_⟩
      · rw [List.append_assoc, start_append_of_le le_rfl, start_length]
        exact h.fits
      · rw [hnumber, start_append_of_le le_rfl, start_length]
        exact not_le.mp hfits

/-- A source that makes a draft can be read, declares every label once and fits. -/
theorem exists_reads_of_ofSource {source : String}
    (hok : Draft.ofSource source.toList = .ok draft) :
    ∃ clauses, Reads source clauses ∧ draft.Represents clauses :=
  represents_empty.of_foldlM 0 hok

/-- Every such source makes a draft. -/
theorem ofSource_of_reads {source : String} (hreads : Reads source clauses)
    (hdistinct : Distinct clauses) (hfits : total clauses ≤ 256) :
    ∃ draft, Draft.ofSource source.toList = .ok draft ∧ draft.Represents clauses :=
  represents_empty.foldlM_of_spelledBy 0 hreads hdistinct hfits

/-- A source that declares every label once but does not fit is refused. -/
theorem ofSource_of_overflow {source : String} (hreads : Reads source clauses)
    (hdistinct : Distinct clauses) (hover : 256 < total clauses) :
    ∃ error, Draft.ofSource source.toList = .error error ∧ error.kind = .programTooLarge ∧
      start clauses error.line ≤ 256 ∧ 256 < start clauses (error.line + 1) :=
  represents_empty.foldlM_of_overflow 0 hreads hdistinct hover

/-! ### References -/

lemma resolveCell_ok_iff {cell : Cell} {byte : UInt8} :
    resolveCell (Layout.labels clauses) cell = .ok byte ↔
      (∀ label, cell.term = .label label → label ∈ declared clauses ∧ address clauses label < 256) ∧
        value clauses cell.term = byte := by
  cases cell with
  | byte v => simp [resolveCell, Cell.term, value]
  | reference use =>
    simp only [resolveCell, lookup_labels, Cell.term, value, Term.label.injEq, forall_eq']
    by_cases hmem : use.label ∈ declared clauses
    · simp [hmem, ite_ok_iff]
    · simp [hmem]

theorem Represents.resolve_ok_iff (h : draft.Represents clauses) {program : Program} :
    draft.resolve = .ok program ↔ Bound clauses ∧ program = Layout.program clauses := by
  have hvalues : draft.cells.map (fun cell => value clauses cell.term) = code clauses := by
    rw [show (fun cell => value clauses cell.term) = value clauses ∘ Cell.term from rfl,
      ← List.map_map, h.cells, List.map_flatMap]
    rfl
  have huses : (∀ cell ∈ draft.cells, ∀ label, cell.term = .label label →
        label ∈ declared clauses ∧ address clauses label < 256) ↔ Bound clauses := by
    simp only [Bound, Uses, ← h.cells, List.mem_map]
    exact ⟨fun hcells label ⟨cell, hcell, heq⟩ => hcells cell hcell label heq,
      fun hlabels cell hcell label heq => hlabels label ⟨cell, hcell, heq⟩⟩
  have hcode : ∀ bytes, draft.cells.mapM (resolveCell draft.labels) = .ok bytes ↔
      Bound clauses ∧ bytes = code clauses := by
    intro bytes
    rw [mapM_ok_iff, h.labels]
    simp only [resolveCell_ok_iff]
    rw [List.forall₂_and_left, huses, ← List.forall₂_map_left_iff, List.forall₂_eq_eq_eq, hvalues,
      eq_comm]
  constructor
  · intro hok
    obtain ⟨bytes, hbytes, hprogram⟩ := bind_ok_iff.mp hok
    obtain ⟨hlabels, rfl⟩ := (hcode _).mp hbytes
    refine ⟨hlabels, ?_⟩
    rw [← Except.ok.inj hprogram, h.mapping, h.labels]
    rfl
  · rintro ⟨hlabels, rfl⟩
    refine bind_ok_iff.mpr ⟨_, (hcode _).mpr ⟨hlabels, rfl⟩, ?_⟩
    rw [h.mapping, h.labels]
    rfl

end Draft

end Octet
