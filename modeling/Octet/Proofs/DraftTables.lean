import Octet.Proofs.Drafting

/-!
# Drafts in keyed tables

A draft once more, with tables whose entries are found by their keys. What is put under a key takes
the place of what was there, and the folded names of the labels are kept in a set of their own, into
which a name goes before it is known to be free. Since every key comes once, both drafts hold the
same entries in the same order: no table ever loses one, and no label that is rejected leaves a
trace.
-/
namespace Octet

open Results

/-! ### Keyed tables -/

section Entries

variable {κ α : Type} [DecidableEq κ]

/-- Put a value under a key, in the place of the value that is there. A new key comes last. -/
def insertEntry (key : κ) (value : α) : List (κ × α) → List (κ × α)
  | [] => [(key, value)]
  | entry :: entries =>
    if entry.1 = key then (key, value) :: entries else entry :: insertEntry key value entries

lemma insertEntry_of_free {key : κ} {entries : List (κ × α)} (h : ∀ entry ∈ entries, entry.1 ≠ key)
    (value : α) : insertEntry key value entries = entries ++ [(key, value)] := by
  induction entries with
  | nil => rfl
  | cons entry entries ih =>
    rw [List.forall_mem_cons] at h
    rw [insertEntry, if_neg h.1, ih h.2, List.cons_append]

/-- A table stays in order if its last entry comes after all others. -/
lemma pairwise_concat {R : α → α → Prop} {entries : List α} {last : α} (h : entries.Pairwise R)
    (hlast : ∀ entry ∈ entries, R entry last) : (entries ++ [last]).Pairwise R := by
  refine List.pairwise_append.mpr ⟨h, List.pairwise_singleton R last, ?_⟩
  simpa using hlast

end Entries

/-! ### Additions -/

/-- What can be added to a draft. An instruction comes with as many operands as its opcode takes. -/
inductive Addition where
  | label (label : Label) (line : ℕ) (span : Span)
  | instruction (op : Opcode) (operands : Vector Cell op.operandCount) (line : ℕ)
  | data (cells : List Cell)

namespace Addition

def cells : Addition → List Cell
  | .label .. => []
  | .instruction op operands _ => .byte op.toByte :: operands.toList
  | .data cells => cells

/-- The entry of the table of lines, for an addition at this offset. -/
def lineEntries (offset : ℕ) : Addition → List (ℕ × ℕ)
  | .instruction _ _ line => [(offset, line)]
  | _ => []

/-- The entry of the table of labels, for an addition at this offset. -/
def labelEntries (offset : ℕ) : Addition → List (Label × ℕ)
  | .label declared _ _ => [(declared, offset)]
  | _ => []

end Addition

namespace Draft

def add (draft : Draft) : Addition → Except AssemblyError Draft
  | .label label line span => draft.declare label line span
  | .instruction op operands line => .ok (draft.emit line (.instruction op operands.toList))
  -- no line is recorded for data
  | .data cells => .ok (draft.emit 0 (.data cells))

/-- A draft that cannot be added to stays as it is. -/
def adding (draft : Draft) (addition : Addition) : Draft :=
  match draft.add addition with
  | .ok draft' => draft'
  | .error _ => draft

def addAll (draft : Draft) (additions : List Addition) : Draft := additions.foldl adding draft

end Draft

/-! ### Work on tables -/

/-- A draft in keyed tables, with the folded names of its labels. -/
structure Tables extends Draft where
  names : Finset (List Char)

namespace Tables

/-- Work that may fail. What it has done until then stays done. -/
abbrev Work := EStateM AssemblyError Tables

def empty : Tables := ⟨Draft.empty, ∅⟩

/-- Put a name into the set. The answer tells whether it is new. -/
def insertName (name : List Char) : Work Bool := modifyGet fun tables =>
  (decide (name ∉ tables.names), { tables with names := insert name tables.names })

def addLabel (label : Label) (line : ℕ) (span : Span) : Work Unit := do
  if ← insertName label.folded then
    modify fun tables =>
      { tables with labels := insertEntry label tables.cells.length tables.labels }
  else throw ⟨.duplicateLabel label, line, span⟩

def addCells (cells : List Cell) : Work Unit :=
  modify fun tables => { tables with cells := tables.cells ++ cells }

def addInstruction (op : Opcode) (operands : List Cell) (line : ℕ) : Work Unit := do
  modify fun tables =>
    { tables with mapping := insertEntry tables.cells.length line tables.mapping }
  addCells [.byte op.toByte]
  addCells operands

def work : Addition → Work Unit
  | .label label line span => addLabel label line span
  | .instruction op operands line => addInstruction op operands.toList line
  | .data cells => addCells cells

/-- What is left of tables when an addition has been tried. -/
def adding (tables : Tables) (addition : Addition) : Tables :=
  match (work addition).run tables with
  | .ok _ left => left
  | .error _ left => left

def addAll (tables : Tables) (additions : List Addition) : Tables := additions.foldl adding tables

/-! ### The invariant -/

/-- The cell under an entry of the table of lines is the opcode of an instruction that ends within
the image. -/
def Starts (cells : List Cell) (entry : ℕ × ℕ) : Prop :=
  ∃ op : Opcode, cells[entry.1]? = some (.byte op.toByte) ∧ entry.1 + op.width ≤ cells.length

/-- What the tables hold of each other and of the image. -/
structure Sound (tables : Tables) : Prop where
  names : ∀ name, name ∈ tables.names ↔ ∃ entry ∈ tables.labels, entry.1.folded = name
  distinct : tables.labels.Pairwise fun a b => a.1.folded ≠ b.1.folded
  increasing : tables.mapping.Pairwise fun a b => a.1 < b.1
  starts : ∀ entry ∈ tables.mapping, Starts tables.cells entry
  ordered : tables.labels.Pairwise fun a b => a.2 ≤ b.2
  bounded : ∀ entry ∈ tables.labels, entry.2 ≤ tables.cells.length

variable {tables : Tables}

lemma Starts.lt {cells : List Cell} {entry : ℕ × ℕ} (h : Starts cells entry) :
    entry.1 < cells.length := by
  obtain ⟨op, hop, -⟩ := h
  exact (List.getElem?_eq_some_iff.mp hop).1

lemma Starts.append {cells : List Cell} {entry : ℕ × ℕ} (h : Starts cells entry)
    (more : List Cell) : Starts (cells ++ more) entry := by
  have hlt := h.lt
  obtain ⟨op, hop, hend⟩ := h
  refine ⟨op, ?_, ?_⟩
  · rwa [List.getElem?_append_left hlt]
  · rw [List.length_append]
    exact hend.trans (Nat.le_add_right _ _)

theorem sound_empty : empty.Sound where
  names := by simp [empty, Draft.empty]
  distinct := .nil
  increasing := .nil
  starts := nofun
  ordered := .nil
  bounded := nofun

/-- The names tell which labels are declared. -/
lemma Sound.declares_iff (h : tables.Sound) {label : Label} :
    tables.toDraft.Declares label ↔ label.folded ∈ tables.names :=
  (h.names label.folded).symm

/-- A label whose name is not known is no key. -/
lemma Sound.label_ne (h : tables.Sound) {label : Label} (hfree : label.folded ∉ tables.names) :
    ∀ entry ∈ tables.labels, entry.1 ≠ label := by
  rintro entry hentry rfl
  exact hfree ((h.names _).mpr ⟨entry, hentry, rfl⟩)

/-- The end of the image is no key. -/
lemma Sound.offset_ne (h : tables.Sound) :
    ∀ entry ∈ tables.mapping, entry.1 ≠ tables.cells.length :=
  fun entry hentry => (h.starts entry hentry).lt.ne

/-! ### One addition -/

lemma run_insertName (name : List Char) : (insertName name).run tables =
    .ok (decide (name ∉ tables.names)) { tables with names := insert name tables.names } := rfl

/-- Where the name is known already, the set has not changed when the label is rejected. -/
lemma run_addLabel_of_mem {label : Label} (h : label.folded ∈ tables.names) (line : ℕ)
    (span : Span) :
    (addLabel label line span).run tables =
      .error ⟨.duplicateLabel label, line, span⟩ tables := by
  rw [addLabel, run_bind_ok (run_insertName _), if_neg (by simpa using h),
    Finset.insert_eq_of_mem h]
  rfl

lemma Sound.run_addLabel (hsound : tables.Sound) {label : Label} (h : label.folded ∉ tables.names)
    (line : ℕ) (span : Span) : (addLabel label line span).run tables = .ok ()
      ⟨tables.toDraft.withLabel label, insert label.folded tables.names⟩ := by
  rw [addLabel, run_bind_ok (run_insertName _), if_pos (by simpa using h)]
  change EStateM.Result.ok () { tables with
    names := insert label.folded tables.names
    labels := insertEntry label tables.cells.length tables.labels } = _
  rw [insertEntry_of_free (hsound.label_ne h)]
  rfl

lemma run_addCells (cells : List Cell) : (addCells cells).run tables =
    .ok () { tables with cells := tables.cells ++ cells } := rfl

lemma Sound.run_addInstruction (hsound : tables.Sound) (op : Opcode) (operands : List Cell)
    (line : ℕ) : (addInstruction op operands line).run tables =
      .ok () ⟨tables.toDraft.emit line (.instruction op operands), tables.names⟩ := by
  rw [addInstruction]
  change EStateM.Result.ok () { tables with
    mapping := insertEntry tables.cells.length line tables.mapping
    cells := tables.cells ++ [Cell.byte op.toByte] ++ operands } = _
  rw [insertEntry_of_free hsound.offset_ne, List.append_assoc]
  rfl

/-- A new label goes to the end of the image, behind all others. -/
lemma Sound.withLabel (h : tables.Sound) {label : Label} (hfree : label.folded ∉ tables.names) :
    Sound ⟨tables.toDraft.withLabel label, insert label.folded tables.names⟩ where
  names name := by
    simp only [Draft.withLabel, Finset.mem_insert, h.names, List.mem_append, List.mem_singleton,
      or_and_right, exists_or, exists_eq_left]
    rw [or_comm, eq_comm]
  distinct := pairwise_concat h.distinct fun entry hentry hfolded =>
    hfree ((h.names _).mpr ⟨entry, hentry, hfolded⟩)
  increasing := h.increasing
  starts := h.starts
  ordered := pairwise_concat h.ordered h.bounded
  bounded := List.forall_mem_append.mpr ⟨h.bounded, List.forall_mem_singleton.mpr le_rfl⟩

/-- Whatever is put behind the image, what was known of it stays true. -/
lemma Sound.withCells (h : tables.Sound) (cells : List Cell) :
    Sound { tables with cells := tables.cells ++ cells } where
  names := h.names
  distinct := h.distinct
  increasing := h.increasing
  starts entry hentry := (h.starts entry hentry).append cells
  ordered := h.ordered
  bounded entry hentry := by
    rw [List.length_append]
    exact (h.bounded entry hentry).trans (Nat.le_add_right _ _)

/-- An instruction starts behind all earlier ones. -/
lemma Sound.withInstruction (h : tables.Sound) {op : Opcode} {operands : List Cell}
    (hoperands : operands.length = op.operandCount) (line : ℕ) :
    Sound ⟨tables.toDraft.emit line (.instruction op operands), tables.names⟩ := by
  have hcells := h.withCells (.byte op.toByte :: operands)
  have hstart :
      Starts (tables.cells ++ .byte op.toByte :: operands) (tables.cells.length, line) := by
    have hwidth := op.width_pos
    refine ⟨op, by simp, ?_⟩
    simp only [List.length_append, List.length_cons, hoperands, Opcode.operandCount]
    omega
  exact
    { names := hcells.names
      distinct := hcells.distinct
      increasing := pairwise_concat h.increasing fun entry hentry => (h.starts entry hentry).lt
      starts := List.forall_mem_append.mpr ⟨hcells.starts, List.forall_mem_singleton.mpr hstart⟩
      ordered := hcells.ordered
      bounded := hcells.bounded }

/-- One addition, to the draft and to the tables. It succeeds in both or fails in both. If it
succeeds then every entry goes behind those that are there, and if it fails then it is a label whose
name is known, and nothing has changed. -/
theorem Sound.run_work (h : tables.Sound) (addition : Addition) :
    (∃ left : Tables, left.Sound ∧ tables.toDraft.add addition = .ok left.toDraft ∧
        (work addition).run tables = .ok () left ∧
        left.cells = tables.cells ++ addition.cells ∧
        left.mapping = tables.mapping ++ addition.lineEntries tables.cells.length ∧
        left.labels = tables.labels ++ addition.labelEntries tables.cells.length) ∨
      ∃ label line span, addition = .label label line span ∧ label.folded ∈ tables.names ∧
        tables.toDraft.add addition = .error ⟨.duplicateLabel label, line, span⟩ ∧
        (work addition).run tables = .error ⟨.duplicateLabel label, line, span⟩ tables := by
  cases addition with
  | label label line span =>
    by_cases hknown : label.folded ∈ tables.names
    · refine .inr ⟨label, line, span, rfl, hknown, ?_, run_addLabel_of_mem hknown line span⟩
      exact if_pos (h.declares_iff.mpr hknown)
    · have hadd : tables.toDraft.declare label line span = .ok (tables.toDraft.withLabel label) :=
        Draft.declare_ok_iff.mpr ⟨mt h.declares_iff.mp hknown, rfl⟩
      exact .inl ⟨_, h.withLabel hknown, hadd, h.run_addLabel hknown line span,
        (List.append_nil _).symm, (List.append_nil _).symm, rfl⟩
  | instruction op operands line =>
    exact .inl ⟨_, h.withInstruction operands.length_toList line, rfl,
      h.run_addInstruction op operands.toList line, rfl, rfl, (List.append_nil _).symm⟩
  | data cells =>
    exact .inl ⟨_, h.withCells cells, rfl, run_addCells cells, rfl,
      (List.append_nil _).symm, (List.append_nil _).symm⟩

/-! ### All additions -/

lemma Sound.adding (h : tables.Sound) (addition : Addition) : (tables.adding addition).Sound ∧
    (tables.adding addition).toDraft = tables.toDraft.adding addition := by
  unfold Tables.adding Draft.adding
  rcases h.run_work addition with
    ⟨left, hleft, hadd, hrun, -⟩ | ⟨label, line, span, -, -, hadd, hrun⟩
  · rw [hadd, hrun]
    exact ⟨hleft, rfl⟩
  · rw [hadd, hrun]
    exact ⟨h, rfl⟩

theorem Sound.addAll (h : tables.Sound) (additions : List Addition) :
    (tables.addAll additions).Sound ∧
      (tables.addAll additions).toDraft = tables.toDraft.addAll additions := by
  induction additions generalizing tables with
  | nil => exact ⟨h, rfl⟩
  | cons addition additions ih =>
    obtain ⟨hsound, hdraft⟩ := h.adding addition
    obtain ⟨hall, hagree⟩ := ih hsound
    refine ⟨hall, hagree.trans ?_⟩
    rw [hdraft]
    rfl

end Tables

/-! ### References filled in -/

/-- Filling in the references keeps the tables, the length and every byte of the image. -/
lemma Draft.resolve_ok {draft : Draft} {program : Program} (h : draft.resolve = .ok program) :
    program.code.length = draft.cells.length ∧ program.mapping = draft.mapping ∧
      program.labels = draft.labels ∧
      ∀ (i : ℕ) (byte : UInt8), draft.cells[i]? = some (.byte byte) →
        program.code[i]? = some byte := by
  obtain ⟨code, hcode, hprogram⟩ := bind_ok_iff.mp h
  obtain rfl := Except.ok.inj hprogram
  have hbytes := mapM_ok_iff.mp hcode
  refine ⟨hbytes.length_eq.symm, rfl, rfl, fun i byte hbyte => ?_⟩
  obtain ⟨hi, hcell⟩ := List.getElem?_eq_some_iff.mp hbyte
  have hi' : i < code.length := hbytes.length_eq ▸ hi
  have hresolved := hbytes.get hi hi'
  rw [List.get_eq_getElem, hcell] at hresolved
  rw [List.getElem?_eq_getElem hi', Except.ok.inj hresolved]
  rfl

/-- From nothing, additions in any order keep the tables of a draft in step with its image, also
where labels are rejected. Tables and draft hold the same, and what is known of them is
`Tables.Sound`. The next addition overwrites no entry, since neither a new label nor the end of the
image is a key. It fails only for a label whose name is known, and then leaves everything as it is.
-/
theorem Tables.stay_in_step (additions : List Addition) :
    let tables := Tables.empty.addAll additions
    let draft := Draft.empty.addAll additions
    tables.toDraft = draft ∧ tables.Sound ∧
      (∀ label : Label, label.folded ∉ tables.names → ∀ entry ∈ tables.labels, entry.1 ≠ label) ∧
      (∀ entry ∈ tables.mapping, entry.1 ≠ tables.cells.length) ∧
      (∀ addition left, (Tables.work addition).run tables = .ok () left →
        left.cells = tables.cells ++ addition.cells ∧
        left.mapping = tables.mapping ++ addition.lineEntries tables.cells.length ∧
        left.labels = tables.labels ++ addition.labelEntries tables.cells.length) ∧
      (∀ addition error left, (Tables.work addition).run tables = .error error left →
        left = tables ∧ ∃ label line span, addition = .label label line span ∧
          label.folded ∈ tables.names ∧ error = ⟨.duplicateLabel label, line, span⟩) ∧
      ∀ program, draft.resolve = .ok program →
        program.code.length = draft.cells.length ∧ program.mapping = draft.mapping ∧
        program.labels = draft.labels ∧
        ∀ (i : ℕ) (byte : UInt8), draft.cells[i]? = some (.byte byte) →
          program.code[i]? = some byte := by
  intro tables draft
  obtain ⟨hsound, hdraft⟩ := Tables.sound_empty.addAll additions
  refine ⟨hdraft, hsound, fun _ => hsound.label_ne, hsound.offset_ne, ?_, ?_,
    fun _ => Draft.resolve_ok⟩
  · intro addition left hok
    rcases hsound.run_work addition with ⟨_, -, -, hrun, hentries⟩ | ⟨_, _, _, -, -, -, hrun⟩
    · cases hrun.symm.trans hok
      exact hentries
    · cases hrun.symm.trans hok
  · intro addition error left herror
    rcases hsound.run_work addition with
      ⟨_, -, -, hrun, -⟩ | ⟨label, line, span, haddition, hknown, -, hrun⟩
    · cases hrun.symm.trans herror
    · cases hrun.symm.trans herror
      exact ⟨rfl, label, line, span, haddition, hknown, rfl⟩

/-! ### Sources -/

/-- The instruction of a line has the operands that its opcode takes. -/
lemma Emission.length_operands_of_ofTokens {line : ℕ} {head : Token} {rest : List Token}
    {op : Opcode} {operands : List Cell}
    (h : ofTokens line head rest = .ok (.instruction op operands)) :
    operands.length = op.operandCount := by
  obtain ⟨statement, -, hterms, hopcode⟩ := Emission.renders_of_ofTokens h
  obtain ⟨phrase, hphrase, hop⟩ := Option.map_eq_some_iff.mp hopcode.symm
  obtain rfl : statement = .instruction phrase := by
    cases statement <;> cases hphrase
    rfl
  have hlength := congrArg List.length hterms
  rw [List.length_map, Statement.length_terms, Emission.cells, List.length_cons, Statement.size,
    hop] at hlength
  rw [Opcode.operandCount]
  omega

namespace Draft

variable {draft draft' : Draft}

/-- The statement of a line is one addition at most. -/
lemma exists_addAll_of_addStatement {line : ℕ} {tokens : List Token}
    (h : draft.addStatement line tokens = .ok draft') :
    ∃ additions, draft.addAll additions = draft' := by
  rcases addStatement_cases h with ⟨-, rfl⟩ | ⟨head, rest, emission, -, hemission, rfl, -⟩
  · exact ⟨[], rfl⟩
  · cases emission with
    | instruction op operands =>
      have hoperands := Emission.length_operands_of_ofTokens hemission
      exact ⟨[.instruction op ⟨operands.toArray, hoperands⟩ line], rfl⟩
    | data cells => exact ⟨[.data cells], rfl⟩

lemma exists_addAll_of_addTokens {line : ℕ} {tokens : List Token}
    (h : draft.addTokens line tokens = .ok draft') :
    ∃ additions, draft.addAll additions = draft' := by
  rcases addTokens_cases h with
    ⟨-, hstatement⟩ | ⟨word, _, _, label, -, -, -, hfree, hstatement⟩
  · exact exists_addAll_of_addStatement hstatement
  · obtain ⟨additions, hadditions⟩ := exists_addAll_of_addStatement hstatement
    refine ⟨.label label line word.span :: additions, ?_⟩
    have hadding : draft.adding (.label label line word.span) = draft.withLabel label := by
      rw [adding, add, declare_ok_iff.mpr ⟨hfree, rfl⟩]
    rw [addAll, List.foldl_cons, hadding]
    exact hadditions

/-- The draft of a source is made by additions from nothing, so all of this is true of it. -/
theorem exists_addAll_of_ofSource {source : List Char} (h : ofSource source = .ok draft) :
    ∃ additions, empty.addAll additions = draft := by
  unfold ofSource at h
  generalize SourceLine.ofSource source = lines, empty = start at h ⊢
  induction lines generalizing start with
  | nil => exact ⟨[], Except.ok.inj h⟩
  | cons line lines ih =>
    rw [List.foldlM_cons] at h
    obtain ⟨middle, hmiddle, hrest⟩ := bind_ok_iff.mp h
    obtain ⟨additions, rfl⟩ := exists_addAll_of_addTokens hmiddle
    obtain ⟨more, hmore⟩ := ih _ hrest
    exact ⟨additions ++ more, by rw [addAll, List.foldl_append]; exact hmore⟩

end Draft

/-- The tables that are built from a source are sound, and hold what its draft holds. -/
theorem Tables.sound_of_ofSource {source : List Char} {draft : Draft}
    (h : Draft.ofSource source = .ok draft) :
    ∃ additions, (empty.addAll additions).Sound ∧ (empty.addAll additions).toDraft = draft := by
  obtain ⟨additions, rfl⟩ := Draft.exists_addAll_of_ofSource h
  exact ⟨additions, sound_empty.addAll additions⟩

/-- What assembles is put down from sound tables, and keeps their entries as they are. -/
theorem Tables.sound_of_assemble {source : String} {program : Program}
    (h : assemble source = .ok program) :
    ∃ tables : Tables, tables.Sound ∧ tables.resolve = .ok program ∧
      program.code.length = tables.cells.length ∧ program.mapping = tables.mapping ∧
      program.labels = tables.labels := by
  obtain ⟨draft, hdraft, hresolve⟩ := bind_ok_iff.mp h
  obtain ⟨additions, hsound, rfl⟩ := sound_of_ofSource hdraft
  obtain ⟨hlength, hmapping, hlabels, -⟩ := Draft.resolve_ok hresolve
  exact ⟨_, hsound, hresolve, hlength, hmapping, hlabels⟩

end Octet
