import Octet.Proofs.Layout
import Octet.Proofs.Results

/-!
# Reading a line

What the parts of the assembler make of the tokens of a line, against the grammar. Each part
succeeds exactly on what the grammar allows, and its result says the same as the value that was
spelled. It says more only where a label is used, since a reference keeps its place in the source.
Operands have errors of their own, which are kept apart from those of their number and their form.
-/
namespace Octet

open Results

/-- What a cell stands for, whatever place a reference remembers. -/
def Cell.term : Cell → Term
  | .byte value => .byte value
  | .reference use => .label use.label

/-- The cell of a term that stands at a place of the source. -/
def Term.cell (line : ℕ) (span : Span) : Term → Cell
  | .byte value => .byte value
  | .label l => .reference ⟨l, line, span⟩

@[simp] theorem Term.term_cell (term : Term) (line : ℕ) (span : Span) :
    (term.cell line span).term = term := by
  cases term <;> rfl

/-! ### Operands -/

lemma byteOfChar_ok_iff {c : Char} {byte : UInt8} :
    byteOfChar c = .ok byte ↔ c.toNat = byte.toNat := by
  have hbyte := byte.toNat_lt
  rw [byteOfChar, ite_ok_iff, Except.ok.injEq, ← UInt8.toNat_inj, UInt8.toNat_ofNat']
  omega

lemma byteOfNumber_ok_iff {role : NumberRole} {n : ℤ} {byte : UInt8} :
    byteOfNumber role n = .ok byte ↔ n = byte.toNat := by
  have hbyte := byte.toNat_lt
  rw [byteOfNumber, ite_ok_iff, Except.ok.injEq, ← UInt8.toNat_inj, UInt8.toNat_ofNat']
  omega

theorem Cell.ofChars_ok_iff {role : NumberRole} {line : ℕ} {span : Span} {cs : List Char}
    {cell : Cell} : Cell.ofChars role line span cs = .ok cell ↔
      ∃ term : Term, term.SpelledBy cs ∧ cell = term.cell line span := by
  unfold Cell.ofChars
  cases hlabel : Label.ofChars? cs with
  | some label =>
    have hspelled : (Term.label label).SpelledBy cs := Label.ofChars?_eq_some_iff.mp hlabel
    simp only [Except.ok.injEq]
    constructor
    · rintro rfl
      exact ⟨_, hspelled, rfl⟩
    · rintro ⟨term, hterm, rfl⟩
      rw [← hspelled.unique hterm]
      rfl
  | none =>
    have hnone := Label.ofChars?_eq_none_iff.mp hlabel
    constructor
    · intro h
      cases hvalue : Numeral.value? cs with
      | none => simp [hvalue] at h
      | some n =>
        simp only [hvalue, map_ok_iff, byteOfNumber_ok_iff] at h
        obtain ⟨byte, rfl, rfl⟩ := h
        exact ⟨.byte byte, hvalue, rfl⟩
    · rintro ⟨label | byte, hterm, rfl⟩
      · rw [← show label.chars = cs from hterm, label.valid] at hnone
        cases hnone
      · have hvalue : Numeral.value? cs = some (byte.toNat : ℤ) := hterm
        simp only [hvalue, map_ok_iff]
        exact ⟨byte, byteOfNumber_ok_iff.mpr rfl, rfl⟩

def Operand.argument : Operand → Argument
  | .number cell => .number cell.term
  | .address cell => .address cell.term
  | .text bytes => .text bytes

/-- The operand that an argument is at a place of the source. -/
def Argument.operand (line : ℕ) (span : Span) : Argument → Operand
  | .number term => .number (term.cell line span)
  | .address term => .address (term.cell line span)
  | .text bytes => .text bytes

@[simp] theorem Argument.argument_operand (argument : Argument) (line : ℕ) (span : Span) :
    (argument.operand line span).argument = argument := by
  cases argument <;> simp [operand, Operand.argument]

lemma mapM_byteOfChar_ok_iff {cs : List Char} {bytes : List UInt8} :
    cs.mapM byteOfChar = .ok bytes ↔ cs.map Char.toNat = bytes.map UInt8.toNat := by
  rw [mapM_ok_iff, ← List.forall₂_eq_eq_eq, List.forall₂_map_left_iff, List.forall₂_map_right_iff]
  simp only [byteOfChar_ok_iff]

theorem Operand.ofToken_ok_iff {line : ℕ} {token : Token} {operand : Operand} :
    Operand.ofToken line token = .ok operand ↔
      ∃ argument : Argument, argument.SpelledBy token ∧
        operand = argument.operand line token.span := by
  constructor
  · intro h
    unfold Operand.ofToken at h
    split at h
    · next hkind =>
      obtain ⟨cell, hcell, rfl⟩ := map_ok_iff.mp h
      obtain ⟨term, hterm, rfl⟩ := Cell.ofChars_ok_iff.mp hcell
      exact ⟨.number term, .inl ⟨hkind, hterm⟩, rfl⟩
    · next hkind =>
      obtain ⟨cell, hcell, rfl⟩ := map_ok_iff.mp h
      obtain ⟨term, hterm, rfl⟩ := Cell.ofChars_ok_iff.mp hcell
      exact ⟨.address term, ⟨hkind, hterm⟩, rfl⟩
    · next hkind =>
      obtain ⟨bytes, hbytes, rfl⟩ := map_ok_iff.mp h
      exact ⟨.text bytes, ⟨hkind, mapM_byteOfChar_ok_iff.mp hbytes⟩, rfl⟩
    · next hkind =>
      split at h
      · next c hinner =>
        obtain ⟨byte, hbyte, rfl⟩ := map_ok_iff.mp h
        exact ⟨.number (.byte byte),
          .inr ⟨hkind, c, byte, hinner, byteOfChar_ok_iff.mp hbyte, rfl⟩, rfl⟩
      · cases h
    · cases h
  · rintro ⟨argument, hargument, rfl⟩
    unfold Operand.ofToken
    cases argument with
    | number term =>
      rcases hargument with ⟨hkind, hterm⟩ | ⟨hkind, c, byte, hinner, hc, rfl⟩
      · simp only [hkind, map_ok_iff]
        exact ⟨_, Cell.ofChars_ok_iff.mpr ⟨term, hterm, rfl⟩, rfl⟩
      · simp only [hkind, hinner, map_ok_iff]
        exact ⟨byte, byteOfChar_ok_iff.mpr hc, rfl⟩
    | address term =>
      obtain ⟨hkind, hterm⟩ := hargument
      simp only [hkind, map_ok_iff]
      exact ⟨_, Cell.ofChars_ok_iff.mpr ⟨term, hterm, rfl⟩, rfl⟩
    | text bytes =>
      obtain ⟨hkind, hbytes⟩ := hargument
      simp only [hkind, map_ok_iff]
      exact ⟨bytes, mapM_byteOfChar_ok_iff.mpr hbytes, rfl⟩

/-- What can be wrong inside of an operand token. -/
def AssemblyErrorKind.OfLiteral : AssemblyErrorKind → Prop
  | .invalidNumber | .outOfRange _ | .multiCharLiteral | .nonByteChar _ => True
  | _ => False

lemma byteOfChar_error {c : Char} {kind : AssemblyErrorKind} (h : byteOfChar c = .error kind) :
    kind.OfLiteral := by
  unfold byteOfChar at h
  split_ifs at h
  cases h
  trivial

lemma Cell.ofChars_error {role : NumberRole} {line : ℕ} {span : Span} {cs : List Char}
    {kind : AssemblyErrorKind} (h : Cell.ofChars role line span cs = .error kind) :
    kind.OfLiteral := by
  unfold Cell.ofChars at h
  split at h
  · cases h
  · split at h
    · have hnumber := map_error_iff.mp h
      unfold byteOfNumber at hnumber
      split_ifs at hnumber
      cases hnumber
      trivial
    · cases h
      trivial

lemma Operand.ofToken_error {line : ℕ} {token : Token} {kind : AssemblyErrorKind}
    (h : Operand.ofToken line token = .error kind) :
    kind.OfLiteral ∨ kind = .malformed ∧ Operand.isToken token = false := by
  unfold Operand.ofToken at h
  split at h
  · exact .inl (Cell.ofChars_error (map_error_iff.mp h))
  · exact .inl (Cell.ofChars_error (map_error_iff.mp h))
  · obtain ⟨c, _, hc⟩ := exists_of_mapM_error (map_error_iff.mp h)
    exact .inl (byteOfChar_error hc)
  · split at h
    · exact .inl (byteOfChar_error (map_error_iff.mp h))
    · cases h
      exact .inl trivial
  · cases h
    exact .inr ⟨rfl, by simp_all [Operand.isToken]⟩

/-- Operand tokens are told from a list exactly if it is empty or they stand in it between single
commas. -/
theorem Operand.splitTokens_ok_iff {tokens operands : List Token} :
    Operand.splitTokens tokens = .ok operands ↔
      (tokens = [] ∧ operands = []) ∨
        (Separated tokens operands ∧ ∀ token ∈ operands, Operand.isToken token = true) := by
  constructor
  · intro h
    fun_induction Operand.splitTokens tokens generalizing operands with
    | case1 => exact .inl ⟨rfl, (Except.ok.inj h).symm⟩
    | case2 token htoken =>
      obtain rfl := Except.ok.inj h
      exact .inr ⟨.one token, by simpa using htoken⟩
    | case3 | case4 | case5 => cases h
    | case6 token comma rest htoken hcomma ih =>
      simp only [Bool.or_eq_true, not_or, bne_iff_ne, ne_eq, not_not, List.isEmpty_iff] at hcomma
      obtain ⟨operands, hrest, rfl⟩ := map_ok_iff.mp h
      rcases ih hrest with ⟨rfl, _⟩ | ⟨hsep, hall⟩
      · exact absurd rfl hcomma.2
      · exact .inr ⟨.more hcomma.1 hsep, by simpa using ⟨by simpa using htoken, hall⟩⟩
  · rintro (⟨rfl, rfl⟩ | ⟨hsep, hall⟩)
    · rfl
    · induction hsep with
      | one token => exact if_pos (hall token List.mem_cons_self)
      | @more token comma tokens operands hcomma hsep ih =>
        have htoken := hall token List.mem_cons_self
        have hne : tokens.isEmpty = false := by cases hsep <;> rfl
        have hrest := ih fun t ht => hall t (List.mem_cons_of_mem _ ht)
        simp [Operand.splitTokens, htoken, hcomma, hne, hrest, Except.map]

/-! ### Statements -/

def Emission.opcode? : Emission → Option Opcode
  | .instruction op _ => some op
  | .data _ => none

/-- An emission puts down what a statement says, and is an instruction if the statement is one. -/
def Emission.Renders (emission : Emission) (statement : Statement) : Prop :=
  emission.cells.map Cell.term = statement.terms ∧
    emission.opcode? = statement.phrase?.map Phrase.opcode

lemma Mnemonic.renders_of_encode? {mnemonic : Mnemonic} {operands : List Operand}
    {emission : Emission} (h : mnemonic.encode? operands = some emission) :
    ∃ statement, Statement.ofForm? mnemonic (operands.map Operand.argument) = some statement ∧
      emission.Renders statement := by
  unfold Mnemonic.encode? at h
  split at h <;> cases h
  case h_2 bytes =>
    have hcells : (bytes.map Cell.byte).map Cell.term = bytes.map Term.byte := by
      simp [Function.comp_def, Cell.term]
    exact ⟨.text bytes, rfl, hcells, rfl⟩
  all_goals exact ⟨_, rfl, rfl, rfl⟩

lemma Mnemonic.arity_le (mnemonic : Mnemonic) : mnemonic.arity ≤ 2 := by
  cases mnemonic <;> decide

lemma Statement.length_arguments (statement : Statement) :
    statement.arguments.length = statement.mnemonic.arity := by
  rcases statement with term | bytes | (⟨_ | _, _, _⟩ | ⟨_ | _, _⟩ | ⟨_ | _, _⟩) <;> rfl

lemma Mnemonic.encode?_of_ofForm? {mnemonic : Mnemonic} {operands : List Operand}
    {statement : Statement}
    (h : Statement.ofForm? mnemonic (operands.map Operand.argument) = some statement) :
    ∃ emission, mnemonic.encode? operands = some emission := by
  have hlength : operands.length = mnemonic.arity := by
    obtain ⟨rfl, harguments⟩ := Statement.ofForm?_eq_some_iff.mp h
    rw [← statement.length_arguments, harguments, List.length_map]
  have hpos := mnemonic.arity_pos
  have hle := mnemonic.arity_le
  rcases operands with _ | ⟨o, _ | ⟨p, _ | ⟨q, rest⟩⟩⟩
  case cons.nil => cases mnemonic <;> cases o <;> first | exact ⟨_, rfl⟩ | cases h
  case cons.cons.nil => cases mnemonic <;> cases o <;> cases p <;> first | exact ⟨_, rfl⟩ | cases h
  all_goals simp only [List.length_nil, List.length_cons] at hlength; omega

lemma isToken_of_spelledBy {tokens : List Token} {arguments : List Argument}
    (h : List.Forall₂ Argument.SpelledBy tokens arguments) :
    ∀ token ∈ tokens, Operand.isToken token = true := by
  induction h with
  | nil => simp
  | cons hargument _ ih => simpa using ⟨hargument.isToken, ih⟩

/-- What operand tokens are read as, whatever errors they would give. -/
lemma spelledBy_of_mapM {line : ℕ} {tokens : List Token} {operands : List Operand}
    {f : Token → AssemblyErrorKind → AssemblyError}
    (h : tokens.mapM (fun token => (Operand.ofToken line token).mapError (f token)) =
      .ok operands) :
    List.Forall₂ Argument.SpelledBy tokens (operands.map Operand.argument) := by
  rw [List.forall₂_map_right_iff]
  refine (mapM_ok_iff.mp h).imp fun token operand hoperand => ?_
  obtain ⟨argument, hspelled, rfl⟩ := Operand.ofToken_ok_iff.mp (mapError_ok_iff.mp hoperand)
  rwa [Argument.argument_operand]

lemma mapM_of_spelledBy {tokens : List Token} {arguments : List Argument} (line : ℕ)
    (f : Token → AssemblyErrorKind → AssemblyError)
    (h : List.Forall₂ Argument.SpelledBy tokens arguments) :
    ∃ operands, tokens.mapM (fun token => (Operand.ofToken line token).mapError (f token)) =
      .ok operands ∧ operands.map Operand.argument = arguments := by
  induction h with
  | nil => exact ⟨[], rfl, rfl⟩
  | @cons token argument tokens arguments hargument _ ih =>
    obtain ⟨operands, hoperands, harguments⟩ := ih
    refine ⟨argument.operand line token.span :: operands, ?_, by simp [harguments]⟩
    have hoperand : Operand.ofToken line token = .ok (argument.operand line token.span) :=
      Operand.ofToken_ok_iff.mpr ⟨argument, hargument, rfl⟩
    rw [mapM_ok_iff] at hoperands ⊢
    exact .cons (mapError_ok_iff.mpr hoperand) hoperands

theorem Emission.renders_of_ofOperands {line : ℕ} {head : Token} {mnemonic : Mnemonic}
    {tokens : List Token} {emission : Emission}
    (h : Emission.ofOperands line head mnemonic tokens = .ok emission) :
    ∃ statement : Statement, statement.mnemonic = mnemonic ∧
      List.Forall₂ Argument.SpelledBy tokens statement.arguments ∧ emission.Renders statement := by
  unfold Emission.ofOperands at h
  split at h
  · cases h
  · dsimp only at h
    split_ifs at h
    obtain ⟨operands, hoperands, hencode⟩ := bind_ok_iff.mp h
    cases hemission : mnemonic.encode? operands with
    | none => rw [hemission] at hencode; cases hencode
    | some other =>
      rw [hemission] at hencode
      obtain rfl := Except.ok.inj hencode
      obtain ⟨statement, hform, hrenders⟩ := Mnemonic.renders_of_encode? hemission
      obtain ⟨hmnemonic, harguments⟩ := Statement.ofForm?_eq_some_iff.mp hform
      exact ⟨statement, hmnemonic, harguments ▸ spelledBy_of_mapM hoperands, hrenders⟩

/-- Operands are refused because there are too many of them, because one of them is wrong, or
because they make no accepted form. -/
theorem Emission.ofOperands_error_cases {line : ℕ} {head : Token} {mnemonic : Mnemonic}
    {operands : List Token} {error : AssemblyError}
    (h : Emission.ofOperands line head mnemonic operands = .error error) :
    (∃ extra ∈ operands, error = (AssemblyErrorKind.tooManyArguments mnemonic).atToken line extra) ∨
    (∃ token ∈ operands, ∃ kind, Operand.ofToken line token = .error kind ∧
      error = kind.atToken line token) ∨
    error = (AssemblyErrorKind.unsupportedOperands mnemonic).atToken line head := by
  unfold Emission.ofOperands at h
  split at h
  · next extra hextra =>
    cases h
    exact .inl ⟨extra, List.mem_of_getElem? hextra, rfl⟩
  · dsimp only at h
    split_ifs at h
    · cases h
      exact .inr (.inr rfl)
    · rcases bind_error_iff.mp h with hoperands | ⟨values, _, hencode⟩
      · obtain ⟨token, htoken, hfail⟩ := exists_of_mapM_error hoperands
        obtain ⟨kind, hkind, rfl⟩ := mapError_error_iff.mp hfail
        exact .inr (.inl ⟨token, htoken, kind, hkind, rfl⟩)
      · cases hemission : mnemonic.encode? values with
        | some emission => rw [hemission] at hencode; cases hencode
        | none =>
          rw [hemission] at hencode
          cases hencode
          exact .inr (.inr rfl)

theorem Emission.ofOperands_of_spelledBy {statement : Statement} {tokens : List Token}
    (h : List.Forall₂ Argument.SpelledBy tokens statement.arguments) (line : ℕ) (head : Token) :
    ∃ emission, Emission.ofOperands line head statement.mnemonic tokens = .ok emission := by
  have hlength : tokens.length = statement.mnemonic.arity :=
    h.length_eq.trans statement.length_arguments
  obtain ⟨operands, hoperands, harguments⟩ :=
    mapM_of_spelledBy line (fun token kind => kind.atToken line token) h
  obtain ⟨emission, hemission⟩ := Mnemonic.encode?_of_ofForm?
    (Statement.ofForm?_eq_some_iff.mpr ⟨rfl, harguments.symm⟩)
  refine ⟨emission, ?_⟩
  unfold Emission.ofOperands
  rw [List.getElem?_eq_none hlength.le]
  dsimp only
  rw [if_neg hlength.not_lt, bind_ok_iff]
  exact ⟨operands, hoperands, by rw [hemission]; rfl⟩

theorem Emission.renders_of_ofTokens {line : ℕ} {head : Token} {rest : List Token}
    {emission : Emission} (h : Emission.ofTokens line head rest = .ok emission) :
    ∃ statement : Statement, statement.SpelledBy head rest ∧ emission.Renders statement := by
  unfold Emission.ofTokens at h
  split_ifs at h with hhead
  split at h
  · cases h
  · next operands hsplit =>
    split at h
    · cases h
    · next mnemonic hmnemonic =>
      simp only [Bool.or_eq_true, bne_iff_ne, ne_eq, not_or, not_not] at hhead
      obtain ⟨statement, rfl, hspelled, hrenders⟩ := Emission.renders_of_ofOperands h
      refine ⟨statement, ⟨hhead.1, Mnemonic.ofChars?_eq_some_iff.mp hmnemonic, operands, ?_,
        hspelled⟩, hrenders⟩
      rcases Operand.splitTokens_ok_iff.mp hsplit with ⟨_, rfl⟩ | ⟨hsep, _⟩
      · have hlength := hspelled.length_eq.trans statement.length_arguments
        exact absurd hlength statement.mnemonic.arity_pos.ne
      · exact hsep

/-- A statement of the grammar is emitted as what it says. -/
theorem Emission.ofTokens_of_spelledBy {head : Token} {rest : List Token} {statement : Statement}
    (h : statement.SpelledBy head rest) (line : ℕ) :
    ∃ emission, Emission.ofTokens line head rest = .ok emission ∧ emission.Renders statement := by
  obtain ⟨hkind, hname, operands, hsep, hspelled⟩ := id h
  obtain ⟨emission, hemission⟩ := Emission.ofOperands_of_spelledBy hspelled line head
  have hsplit := Operand.splitTokens_ok_iff.mpr (.inr ⟨hsep, isToken_of_spelledBy hspelled⟩)
  have hok : Emission.ofTokens line head rest = .ok emission := by
    unfold Emission.ofTokens
    rw [if_neg (by simp [hkind, Mnemonic.hasShape_of_names hname]), hsplit]
    dsimp only
    rw [Mnemonic.ofChars?_eq_some_iff.mpr hname]
    exact hemission
  obtain ⟨other, hother, hrenders⟩ := Emission.renders_of_ofTokens hok
  exact ⟨emission, hok, h.unique hother ▸ hrenders⟩

end Octet
