import Octet.Proofs.Language

/-!
# Renamed labels

Labels are names and nothing more. If every clause gets new names for its labels, lines start where
they did and the same bytes come out. All that is asked of the new names is that they stay apart, in
the way that labels have to.
-/
namespace Octet

open Results Layout

/-! ### Clauses -/

section Clauses

variable (f : Label → Label)

def Term.rename : Term → Term
  | .label l => .label (f l)
  | .byte value => .byte value

def Amount.rename : Amount → Amount
  | .literal term => .literal (term.rename f)
  | .cell term => .cell (term.rename f)

def Phrase.rename : Phrase → Phrase
  | .binary operation target amount => .binary operation (target.rename f) (amount.rename f)
  | .unary operation operand => .unary operation (operand.rename f)
  | .jump condition target => .jump condition (target.rename f)

def Statement.rename : Statement → Statement
  | .data term => .data (term.rename f)
  | .text bytes => .text bytes
  | .instruction phrase => .instruction (phrase.rename f)

def Clause.rename (clause : Clause) : Clause where
  declared := clause.declared.map f
  statement := clause.statement.map (Statement.rename f)

def Argument.rename : Argument → Argument
  | .number term => .number (term.rename f)
  | .address term => .address (term.rename f)
  | .text bytes => .text bytes

@[simp] theorem Phrase.opcode_rename (phrase : Phrase) :
    (phrase.rename f).opcode = phrase.opcode := by
  rcases phrase with ⟨_ | _, _, _ | _⟩ | ⟨_ | _, _⟩ | ⟨_ | _, _⟩ <;> rfl

@[simp] theorem Phrase.operands_rename (phrase : Phrase) :
    (phrase.rename f).operands = phrase.operands.map (Term.rename f) := by
  rcases phrase with ⟨_, _, _ | _⟩ | ⟨_, _⟩ | ⟨_, _⟩ <;> rfl

@[simp] theorem Statement.mnemonic_rename (statement : Statement) :
    (statement.rename f).mnemonic = statement.mnemonic := by
  rcases statement with _ | _ | (⟨_ | _, _, _⟩ | ⟨_ | _, _⟩ | ⟨_ | _, _⟩) <;> rfl

@[simp] theorem Statement.arguments_rename (statement : Statement) :
    (statement.rename f).arguments = statement.arguments.map (Argument.rename f) := by
  rcases statement with _ | _ | (⟨_, _, _ | _⟩ | ⟨_, _⟩ | ⟨_, _⟩) <;> rfl

@[simp] theorem Statement.terms_rename (statement : Statement) :
    (statement.rename f).terms = statement.terms.map (Term.rename f) := by
  rcases statement with term | bytes | phrase
  · rfl
  · simp [rename, terms, Function.comp_def, Term.rename]
  · simp [rename, terms, Term.rename]

namespace Clause

@[simp] theorem declared_rename (clause : Clause) :
    (clause.rename f).declared = clause.declared.map f := rfl

@[simp] theorem terms_rename (clause : Clause) :
    (clause.rename f).terms = clause.terms.map (Term.rename f) := by
  obtain ⟨_, _ | statement⟩ := clause
  · rfl
  · exact statement.terms_rename f

@[simp] theorem size_rename (clause : Clause) : (clause.rename f).size = clause.size := by
  rw [← length_terms, terms_rename, List.length_map, length_terms]

lemma phrase?_rename (clause : Clause) :
    (clause.rename f).phrase? = clause.phrase?.map (Phrase.rename f) := by
  obtain ⟨_, _ | _ | _ | _⟩ := clause <;> rfl

end Clause

end Clauses

/-! ### Layouts -/

/-- The new name starts with a dot exactly if the old one does. -/
def Label.KeepsDot (f : Label → Label) (label : Label) : Prop :=
  (f label).chars.head? = some '.' ↔ label.chars.head? = some '.'

instance (f : Label → Label) (label : Label) : Decidable (label.KeepsDot f) :=
  inferInstanceAs (Decidable (_ ↔ _))

/-- The new names of these labels differ in more than letter case wherever the old ones did, and
keep a dot in front or its absence. -/
structure Renames (f : Label → Label) (labels : List Label) : Prop where
  injective : ∀ a ∈ labels, ∀ b ∈ labels, (f a).folded = (f b).folded → a.folded = b.folded
  dotted : ∀ a ∈ labels, a.KeepsDot f

namespace Layout

variable {f : Label → Label} {clauses : List Clause}

lemma start_rename (line : ℕ) :
    start (clauses.map (Clause.rename f)) line = start clauses line := by
  simp [start, ← List.map_take, Function.comp_def]

lemma total_rename : total (clauses.map (Clause.rename f)) = total clauses := by
  simp [total, Function.comp_def]

lemma declared_rename :
    declared (clauses.map (Clause.rename f)) = (declared clauses).map f := by
  simp [declared, List.filterMap_map, List.map_filterMap, Function.comp_def]

lemma mapping_rename : mapping (clauses.map (Clause.rename f)) = mapping clauses := by
  simp [mapping, List.zipIdx_map, List.filterMap_map, Function.comp_def, start_rename,
    Clause.phrase?_rename]

lemma labels_rename : labels (clauses.map (Clause.rename f)) =
    (labels clauses).map fun (label, offset) => (f label, offset) := by
  simp [labels, List.zipIdx_map, List.filterMap_map, List.map_filterMap, Function.comp_def,
    start_rename]

lemma Distinct.rename (h : Distinct clauses) (hf : Renames f (declared clauses)) :
    Distinct (clauses.map (Clause.rename f)) := by
  rw [Distinct, declared_rename, List.pairwise_map]
  exact h.imp_of_mem fun ha hb hne heq => hne (hf.injective _ ha _ hb heq)

lemma address_rename (h : Distinct clauses) (hf : Renames f (declared clauses)) {label : Label}
    (hlabel : label ∈ declared clauses) :
    address (clauses.map (Clause.rename f)) (f label) = address clauses label := by
  obtain ⟨line, clause, hclause, hdeclared⟩ := exists_line_of_mem_declared hlabel
  have hrenamed : (clauses.map (Clause.rename f))[line]? = some (clause.rename f) := by
    rw [List.getElem?_map, hclause]
    rfl
  have hname : (clause.rename f).declared = some (f label) := by
    rw [Clause.declared_rename, hdeclared]
    rfl
  rw [address_eq_start (h.rename hf) hrenamed hname, start_rename,
    address_eq_start h hclause hdeclared]

lemma flatMap_terms_rename : (clauses.map (Clause.rename f)).flatMap Clause.terms =
    (clauses.flatMap Clause.terms).map (Term.rename f) := by
  simp [List.flatMap_map, List.map_flatMap]

lemma Bound.rename (hbound : Bound clauses) (h : Distinct clauses)
    (hf : Renames f (declared clauses)) : Bound (clauses.map (Clause.rename f)) := by
  intro renamed huse
  rw [Uses, flatMap_terms_rename] at huse
  obtain ⟨label | value, hterm, hrenamed⟩ := List.mem_map.mp huse
  · obtain rfl := Term.label.inj hrenamed
    obtain ⟨hmem, haddress⟩ := hbound label hterm
    rw [declared_rename, address_rename h hf hmem]
    exact ⟨List.mem_map_of_mem hmem, haddress⟩
  · cases hrenamed

theorem WellFormed.rename (h : WellFormed clauses) (hf : Renames f (declared clauses)) :
    WellFormed (clauses.map (Clause.rename f)) where
  distinct := h.distinct.rename hf
  fits := total_rename.trans_le h.fits
  bound := h.bound.rename h.distinct hf

lemma code_rename (h : WellFormed clauses) (hf : Renames f (declared clauses)) :
    code (clauses.map (Clause.rename f)) = code clauses := by
  have hvalue : ∀ term ∈ clauses.flatMap Clause.terms,
      value (clauses.map (Clause.rename f)) (term.rename f) = value clauses term := by
    rintro (label | byte) hterm
    · simp only [Term.rename, value, address_rename h.distinct hf (h.bound label hterm).1]
    · rfl
  rw [code, ← List.map_flatMap, flatMap_terms_rename, List.map_map, code, ← List.map_flatMap]
  exact List.map_congr_left hvalue

/-- Renaming changes the names in the table of labels and nothing else. -/
theorem program_rename (h : WellFormed clauses) (hf : Renames f (declared clauses)) :
    program (clauses.map (Clause.rename f)) =
      { program clauses with
        labels := (labels clauses).map fun (label, offset) => (f label, offset) } := by
  rw [program, code_rename h hf, mapping_rename, labels_rename]
  rfl

end Layout

end Octet
