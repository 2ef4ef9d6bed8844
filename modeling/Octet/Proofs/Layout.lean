import Octet.Proofs.Grammar
import Octet.Assembly.Program

/-!
# Layout in two passes

The first pass adds up the sizes of the clauses, which fixes where each of them starts and so what
every label stands for. The second pass writes the bytes. Nothing is ever filled in later.
-/
namespace Octet

/-- The opcode of a written instruction. Brackets around the second operand decide between two. -/
def Phrase.opcode : Phrase → Opcode
  | .binary .copy _ (.cell _) => .copyCell
  | .binary .copy _ (.literal _) => .copyLiteral
  | .binary .add _ (.cell _) => .addCell
  | .binary .add _ (.literal _) => .addLiteral
  | .binary .subtract _ (.cell _) => .subtractCell
  | .binary .subtract _ (.literal _) => .subtractLiteral
  | .binary .compare _ (.cell _) => .compareCell
  | .binary .compare _ (.literal _) => .compareLiteral
  | .unary .increment _ => .increment
  | .unary .decrement _ => .decrement
  | .unary .printDecimal _ => .printDecimal
  | .unary .printText _ => .printText
  | .jump .always _ => .jump
  | .jump .carry _ => .jumpCarry
  | .jump .noCarry _ => .jumpNoCarry
  | .jump .zero _ => .jumpZero
  | .jump .notZero _ => .jumpNotZero

def Amount.term : Amount → Term
  | .literal term | .cell term => term

def Phrase.operands : Phrase → List Term
  | .binary _ target amount => [target, amount.term]
  | .unary _ operand => [operand]
  | .jump _ target => [target]

/-- How many bytes a statement takes. -/
def Statement.size : Statement → ℕ
  | .data _ => 1
  | .text bytes => bytes.length
  | .instruction phrase => phrase.opcode.width

/-- What a statement puts into the image, one term for each byte. -/
def Statement.terms : Statement → List Term
  | .data term => [term]
  | .text bytes => bytes.map .byte
  | .instruction phrase => .byte phrase.opcode.toByte :: phrase.operands

/-- The instruction that a statement is, if it is not data. -/
def Statement.phrase? : Statement → Option Phrase
  | .instruction phrase => some phrase
  | _ => none

namespace Clause

/-- A line without a statement takes no bytes. -/
def size (clause : Clause) : ℕ := clause.statement.elim 0 Statement.size

def terms (clause : Clause) : List Term := clause.statement.elim [] Statement.terms

def phrase? (clause : Clause) : Option Phrase := clause.statement.bind Statement.phrase?

theorem phrase?_eq_some_iff {clause : Clause} {phrase : Phrase} :
    clause.phrase? = some phrase ↔ clause.statement = some (.instruction phrase) := by
  obtain ⟨_, _ | _ | _ | _⟩ := clause <;> simp [phrase?, Statement.phrase?]

lemma size_of_phrase? {clause : Clause} {phrase : Phrase} (h : clause.phrase? = some phrase) :
    clause.size = phrase.opcode.width := by
  simp [size, phrase?_eq_some_iff.mp h, Statement.size]

lemma terms_of_phrase? {clause : Clause} {phrase : Phrase} (h : clause.phrase? = some phrase) :
    clause.terms = .byte phrase.opcode.toByte :: phrase.operands := by
  simp [terms, phrase?_eq_some_iff.mp h, Statement.terms]

end Clause

lemma Phrase.length_operands (phrase : Phrase) :
    phrase.operands.length + 1 = phrase.opcode.width := by
  rcases phrase with ⟨_ | _, _, _ | _⟩ | ⟨_ | _, _⟩ | ⟨_ | _, _⟩ <;> rfl

lemma Phrase.opcode_ne_halt (phrase : Phrase) : phrase.opcode ≠ .halt := by
  rcases phrase with ⟨_ | _, _, _ | _⟩ | ⟨_ | _, _⟩ | ⟨_ | _, _⟩ <;> nofun

@[simp] theorem Statement.length_terms (statement : Statement) :
    statement.terms.length = statement.size := by
  cases statement with
  | data => rfl
  | text bytes => simp [terms, size]
  | instruction phrase => simpa [terms, size] using phrase.length_operands

@[simp] theorem Clause.length_terms (clause : Clause) : clause.terms.length = clause.size := by
  obtain ⟨_, _ | statement⟩ := clause
  · rfl
  · exact statement.length_terms

namespace Layout

/-- Where the bytes of a line start: behind those of all earlier lines. -/
def start (clauses : List Clause) (line : ℕ) : ℕ := ((clauses.take line).map Clause.size).sum

/-- The length of the whole image. -/
def total (clauses : List Clause) : ℕ := (clauses.map Clause.size).sum

/-- The declared labels and where their lines start, in the order of the source. -/
def labels (clauses : List Clause) : List (Label × ℕ) :=
  clauses.zipIdx.filterMap fun (clause, line) => clause.declared.map (·, start clauses line)

/-- The starts of the lines with an instruction, in the order of the source. -/
def mapping (clauses : List Clause) : List (ℕ × ℕ) :=
  clauses.zipIdx.filterMap fun (clause, line) =>
    clause.phrase?.map fun _ => (start clauses line, line)

/-- The labels that the lines declare, in the order of the source. -/
def declared (clauses : List Clause) : List Label := clauses.filterMap Clause.declared

/-- Where the line starts that declares a label. -/
def address (clauses : List Clause) (label : Label) : ℕ :=
  start clauses (clauses.findIdx (·.declared = some label))

/-- The byte that a term stands for. -/
def value (clauses : List Clause) : Term → UInt8
  | .label label => UInt8.ofNat (address clauses label)
  | .byte value => value

def code (clauses : List Clause) : List UInt8 :=
  clauses.flatMap fun clause => clause.terms.map (value clauses)

def program (clauses : List Clause) : Program :=
  ⟨code clauses, mapping clauses, labels clauses⟩

/-- No two declared labels are equal in all but letter case. -/
def Distinct (clauses : List Clause) : Prop :=
  (declared clauses).Pairwise fun a b => a.folded ≠ b.folded

/-- A label stands for a byte somewhere, as an operand or as data. -/
def Uses (clauses : List Clause) (label : Label) : Prop :=
  .label label ∈ clauses.flatMap Clause.terms

/-- Every label that is used is declared, at an address of memory. -/
def Bound (clauses : List Clause) : Prop :=
  ∀ label, Uses clauses label → label ∈ declared clauses ∧ address clauses label < 256

/-- The clauses describe an image. -/
structure WellFormed (clauses : List Clause) : Prop where
  distinct : Distinct clauses
  fits : total clauses ≤ 256
  bound : Bound clauses

variable {clauses : List Clause}

@[simp] theorem start_length : start clauses clauses.length = total clauses := by
  simp [start, total]

lemma start_succ {line : ℕ} {clause : Clause} (h : clauses[line]? = some clause) :
    start clauses (line + 1) = start clauses line + clause.size := by
  simp [start, List.take_add_one, h]

lemma start_append_of_le {line : ℕ} (h : line ≤ clauses.length) (more : List Clause) :
    start (clauses ++ more) line = start clauses line := by
  rw [start, List.take_append_of_le_length h, start]

lemma start_mono : Monotone (start clauses) := by
  refine monotone_nat_of_le_succ fun line => ?_
  cases h : clauses[line]? with
  | none => simp [start, List.take_add_one, h]
  | some clause => rw [start_succ h]; exact Nat.le_add_right _ _

lemma start_le_total (line : ℕ) : start clauses line ≤ total clauses := by
  have h : start clauses line ≤ start clauses (max line clauses.length) :=
    start_mono (Nat.le_max_left _ _)
  simpa [start, total, List.take_of_length_le (Nat.le_max_right _ _)] using h

@[simp] theorem length_code : (code clauses).length = total clauses := by
  simp [code, total, List.length_flatMap]

theorem mem_mapping {offset line : ℕ} : (offset, line) ∈ mapping clauses ↔
    ∃ clause phrase, clauses[line]? = some clause ∧ clause.phrase? = some phrase ∧
      offset = start clauses line := by
  simp only [mapping, List.mem_filterMap, Prod.exists, List.mk_mem_zipIdx_iff_getElem?,
    Option.map_eq_some_iff, Prod.mk.injEq]
  constructor
  · rintro ⟨clause, _, hclause, phrase, hphrase, rfl, rfl⟩
    exact ⟨clause, phrase, hclause, hphrase, rfl⟩
  · rintro ⟨clause, phrase, hclause, hphrase, rfl⟩
    exact ⟨clause, line, hclause, phrase, hphrase, rfl, rfl⟩

/-! ### Growing by a line -/

lemma filterMap_zipIdx_concat {α : Type} (f : Clause → ℕ → ℕ → Option α) (clauses : List Clause)
    (clause : Clause) :
    ((clauses ++ [clause]).zipIdx.filterMap fun x => f x.1 (start (clauses ++ [clause]) x.2) x.2) =
      (clauses.zipIdx.filterMap fun x => f x.1 (start clauses x.2) x.2) ++
        (f clause (total clauses) clauses.length).toList := by
  rw [List.zipIdx_append, List.filterMap_append]
  congr 1
  · refine List.filterMap_congr fun x hx => ?_
    have hlt := (List.mem_zipIdx hx).2.1
    rw [start_append_of_le (by omega)]
  · have hstart : start (clauses ++ [clause]) clauses.length = total clauses := by
      rw [start_append_of_le le_rfl, start_length]
    rw [zero_add, List.zipIdx_singleton, List.filterMap_cons, List.filterMap_nil, hstart]
    cases f clause (total clauses) clauses.length <;> rfl

theorem labels_concat (clauses : List Clause) (clause : Clause) :
    labels (clauses ++ [clause]) =
      labels clauses ++ (clause.declared.map (·, total clauses)).toList :=
  filterMap_zipIdx_concat (fun c offset _ => c.declared.map (·, offset)) clauses clause

theorem mapping_concat (clauses : List Clause) (clause : Clause) :
    mapping (clauses ++ [clause]) =
      mapping clauses ++ (clause.phrase?.map fun _ => (total clauses, clauses.length)).toList :=
  filterMap_zipIdx_concat (fun c offset line => c.phrase?.map fun _ => (offset, line))
    clauses clause

lemma total_le_append (clauses more : List Clause) : total clauses ≤ total (clauses ++ more) := by
  simp [total]

lemma total_concat (clauses : List Clause) (clause : Clause) :
    total (clauses ++ [clause]) = total clauses + clause.size := by
  simp [total]

/-! ### Labels -/

lemma mem_declared {label : Label} :
    label ∈ declared clauses ↔ ∃ clause ∈ clauses, clause.declared = some label := by
  simp [declared]

lemma address_concat_of_mem {label : Label} (h : label ∈ declared clauses) (clause : Clause) :
    address (clauses ++ [clause]) label = address clauses label := by
  have hlt : clauses.findIdx (·.declared = some label) < clauses.length := by
    simpa [List.findIdx_lt_length] using mem_declared.mp h
  rw [address, List.findIdx_append, if_pos hlt, start_append_of_le hlt.le, address]

lemma address_concat_of_not_mem {label : Label} (h : label ∉ declared clauses) {clause : Clause}
    (hclause : clause.declared = some label) :
    address (clauses ++ [clause]) label = total clauses := by
  have hlength : clauses.findIdx (·.declared = some label) = clauses.length := by
    rw [List.findIdx_eq_length]
    intro c hc
    simpa using fun heq => h (mem_declared.mpr ⟨c, hc, heq⟩)
  rw [address, List.findIdx_append, hlength, if_neg (lt_irrefl _)]
  simp [hclause, start_append_of_le]

/-- If no key comes twice, then all entries are found by their keys. -/
lemma lookup_eq_some_iff_mem {α β : Type} [DecidableEq α] {entries : List (α × β)}
    (h : (entries.map Prod.fst).Nodup) {key : α} {value : β} :
    entries.lookup key = some value ↔ (key, value) ∈ entries := by
  rw [List.lookup_eq_some_iff]
  constructor
  · rintro ⟨front, back, rfl, _⟩
    simp
  · intro hmem
    obtain ⟨front, back, rfl⟩ := List.append_of_mem hmem
    refine ⟨front, back, rfl, fun entry hentry => bne_iff_ne.mpr ?_⟩
    rintro rfl
    rw [List.map_append, List.nodup_append] at h
    exact h.2.2 _ (List.mem_map_of_mem hentry) _ (by simp) rfl

/-- Looking a label up gives the start of the first line that declares it. -/
theorem lookup_labels (clauses : List Clause) (label : Label) : (labels clauses).lookup label =
    if label ∈ declared clauses then some (address clauses label) else none := by
  induction clauses using List.reverseRecOn with
  | nil => rfl
  | append_singleton clauses clause ih =>
    rw [labels_concat, List.lookup_append, ih]
    have hmem : label ∈ declared (clauses ++ [clause]) ↔
        label ∈ declared clauses ∨ clause.declared = some label := by
      simp [declared, List.mem_filterMap]
    by_cases hbefore : label ∈ declared clauses
    · rw [if_pos hbefore, if_pos (hmem.mpr (.inl hbefore)), address_concat_of_mem hbefore]
      rfl
    rw [if_neg hbefore, Option.none_or]
    by_cases hhere : clause.declared = some label
    · rw [if_pos (hmem.mpr (.inr hhere)), address_concat_of_not_mem hbefore hhere, hhere]
      simp
    · rw [if_neg (by tauto)]
      cases hclause : clause.declared with
      | none => rfl
      | some other =>
        have hne : (label == other) = false := by
          rw [beq_eq_false_iff_ne]
          rintro rfl
          exact hhere hclause
        simp [List.lookup_cons, hne]

theorem map_fst_labels (clauses : List Clause) :
    (labels clauses).map Prod.fst = declared clauses := by
  induction clauses using List.reverseRecOn with
  | nil => rfl
  | append_singleton clauses clause ih =>
    rw [labels_concat, List.map_append, ih]
    cases h : clause.declared <;> simp [declared, h]

lemma Distinct.nodup (h : Distinct clauses) : (declared clauses).Nodup :=
  h.imp fun hne heq => hne (congrArg _ heq)

lemma Distinct.of_append {more : List Clause} (h : Distinct (clauses ++ more)) :
    Distinct clauses := by
  unfold Distinct declared at h ⊢
  rw [List.filterMap_append] at h
  exact (List.pairwise_append.mp h).1

lemma distinct_concat {clause : Clause} : Distinct (clauses ++ [clause]) ↔ Distinct clauses ∧
    ∀ label, clause.declared = some label → ∀ other ∈ declared clauses,
      other.folded ≠ label.folded := by
  unfold Distinct
  rw [declared, List.filterMap_append, List.pairwise_append]
  cases h : clause.declared <;> simp [h, declared]

/-- If no two lines declare the same label, there is just one line to find. -/
lemma findIdx_declared (hdistinct : Distinct clauses) {line : ℕ} {clause : Clause} {label : Label}
    (hclause : clauses[line]? = some clause) (hdeclared : clause.declared = some label) :
    clauses.findIdx (·.declared = some label) = line := by
  obtain ⟨hline, rfl⟩ := List.getElem?_eq_some_iff.mp hclause
  have hnodup := hdistinct.nodup
  rw [declared, List.nodup_iff_pairwise_ne, List.pairwise_filterMap] at hnodup
  rw [List.findIdx_eq hline]
  refine ⟨by simpa using hdeclared, fun j hj => ?_⟩
  have hne := List.pairwise_iff_getElem.mp hnodup j line (by omega) hline hj
  simp only [decide_eq_false_iff_not]
  exact fun h => hne label h label hdeclared rfl

theorem address_eq_start (hdistinct : Distinct clauses) {line : ℕ} {clause : Clause}
    {label : Label} (hclause : clauses[line]? = some clause)
    (hdeclared : clause.declared = some label) : address clauses label = start clauses line := by
  rw [address, findIdx_declared hdistinct hclause hdeclared]

lemma exists_line_of_mem_declared {label : Label} (h : label ∈ declared clauses) :
    ∃ (line : ℕ) (clause : Clause),
      clauses[line]? = some clause ∧ clause.declared = some label := by
  obtain ⟨clause, hmem, hdeclared⟩ := mem_declared.mp h
  obtain ⟨line, hline⟩ := List.mem_iff_getElem?.mp hmem
  exact ⟨line, clause, hline, hdeclared⟩

theorem bound_iff (hdistinct : Distinct clauses) : Bound clauses ↔
    ∀ label, Uses clauses label → ∃ (line : ℕ) (clause : Clause),
      clauses[line]? = some clause ∧ clause.declared = some label ∧
        start clauses line ≤ 255 := by
  refine forall₂_congr fun label _ => ?_
  constructor
  · rintro ⟨hmem, haddress⟩
    obtain ⟨line, clause, hclause, hdeclared⟩ := exists_line_of_mem_declared hmem
    rw [address_eq_start hdistinct hclause hdeclared] at haddress
    exact ⟨line, clause, hclause, hdeclared, by omega⟩
  · rintro ⟨line, clause, hclause, hdeclared, hstart⟩
    rw [address_eq_start hdistinct hclause hdeclared]
    exact ⟨mem_declared.mpr ⟨clause, List.mem_of_getElem? hclause, hdeclared⟩, by omega⟩

/-! ### Bytes -/

theorem getElem?_code {line : ℕ} {clause : Clause} (h : clauses[line]? = some clause) {i : ℕ}
    (hi : i < clause.size) :
    (code clauses)[start clauses line + i]? = (clause.terms[i]?).map (value clauses) := by
  obtain ⟨hline, rfl⟩ := List.getElem?_eq_some_iff.mp h
  have hsplit : clauses = clauses.take line ++ clauses[line] :: clauses.drop (line + 1) := by simp
  have hcode : code clauses =
      ((clauses.take line).flatMap fun c => c.terms.map (value clauses)) ++
        (clauses[line].terms.map (value clauses) ++
          (clauses.drop (line + 1)).flatMap fun c => c.terms.map (value clauses)) := by
    have h := congrArg (List.flatMap fun c => c.terms.map (value clauses)) hsplit
    rwa [List.flatMap_append, List.flatMap_cons] at h
  have hlength : ((clauses.take line).flatMap fun c => c.terms.map (value clauses)).length =
      start clauses line := by
    simp [start, List.length_flatMap]
  rw [hcode, ← hlength, List.getElem?_append_right (Nat.le_add_right _ _), Nat.add_sub_cancel_left,
    List.getElem?_append_left (by simpa using hi), List.getElem?_map]

/-- Every byte of the image belongs to a line. -/
theorem exists_line {i : ℕ} (hi : i < total clauses) :
    ∃ line clause, clauses[line]? = some clause ∧ start clauses line ≤ i ∧
      i < start clauses line + clause.size := by
  induction clauses using List.reverseRecOn with
  | nil => exact absurd hi (Nat.not_lt_zero i)
  | append_singleton clauses clause ih =>
    by_cases hlt : i < total clauses
    · obtain ⟨line, c, hc, hstart, hend⟩ := ih hlt
      have hline := (List.getElem?_eq_some_iff.mp hc).1
      refine ⟨line, c, ?_, ?_⟩
      · rw [List.getElem?_append_left hline, hc]
      · rw [start_append_of_le hline.le]
        exact ⟨hstart, hend⟩
    · rw [total_concat] at hi
      refine ⟨clauses.length, clause, by simp, ?_⟩
      rw [start_append_of_le le_rfl, start_length]
      omega

/-- Instructions start one after the other, on one line after the other. -/
theorem mapping_pairwise (clauses : List Clause) :
    (mapping clauses).Pairwise fun a b => a.1 < b.1 ∧ a.2 < b.2 := by
  induction clauses using List.reverseRecOn with
  | nil => exact .nil
  | append_singleton clauses clause ih =>
    rw [mapping_concat, List.pairwise_append]
    refine ⟨ih, ?_, ?_⟩
    · cases clause.phrase? <;> simp
    · rintro ⟨offset, line⟩ hentry b hb
      obtain ⟨c, phrase, hc, hphrase, rfl⟩ := mem_mapping.mp hentry
      obtain ⟨_, _, rfl⟩ := Option.map_eq_some_iff.mp (Option.mem_toList.mp hb)
      -- an instruction takes at least its opcode byte, so the next one starts behind it
      have hsize := Clause.size_of_phrase? hphrase
      have hwidth := phrase.opcode.width_pos
      have hnext := start_succ hc
      have htotal : start clauses (line + 1) ≤ total clauses := start_le_total _
      have hline := (List.getElem?_eq_some_iff.mp hc).1
      exact ⟨by dsimp only; omega, hline⟩

end Layout

end Octet
