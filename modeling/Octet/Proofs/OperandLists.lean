import Octet.Proofs.Reading

/-!
# Lists of operands

What can stand behind a mnemonic: nothing, or operands with single commas between them. In any other
list one token is out of place, and the assembler marks it. What is in front of this token can still
be continued to a list of operands. With the token it cannot any more, or the token is a comma and
the list ends behind it.
-/
namespace Octet

open Results

variable {tokens rest operands before after : List Token} {token separator : Token}

/-- The tokens are none, or operands with single commas between them. Operands are words, and
addresses and literals that are closed. -/
def OperandList (tokens operands : List Token) : Prop :=
  (tokens = [] ∧ operands = []) ∨
    (Separated tokens operands ∧
      ∀ token ∈ operands, token.kind ∈ [.word, .address true, .text true, .character true])

/-- The tokens can be continued to a list of operands. -/
def StartsOperands (tokens : List Token) : Prop :=
  ∃ more operands, OperandList (tokens ++ more) operands

/-- A list goes wrong at this token and not before. What is in front can be continued, but not with
the token, or the token is a comma and should be continued, but nothing follows. -/
structure OutOfPlace (before : List Token) (token : Token) (after : List Token) : Prop where
  starts : StartsOperands before
  stops : ¬ StartsOperands (before ++ [token]) ∨ token.kind = .comma ∧ after = []

/-- A list goes wrong at this token. -/
def Misplaced (tokens : List Token) (token : Token) : Prop :=
  ∃ before after, tokens = before ++ token :: after ∧ OutOfPlace before token after

/-! ### Grammar -/

namespace Operand

lemma isToken_iff :
    isToken token = true ↔ token.kind ∈ [.word, .address true, .text true, .character true] := by
  unfold isToken
  split <;> simp_all

theorem splitTokens_ok_iff_operandList :
    splitTokens tokens = .ok operands ↔ OperandList tokens operands := by
  simp only [splitTokens_ok_iff, OperandList, isToken_iff]

end Operand

lemma Separated.head_mem (h : Separated (token :: rest) operands) : token ∈ operands := by
  cases h <;> exact List.mem_cons_self

/-- Separators stand between operands only, so the last token is an operand. -/
lemma Separated.getLast?_eq (h : Separated tokens operands) :
    operands.getLast? = tokens.getLast? := by
  induction h with
  | one => rfl
  | more _ rest ih =>
    cases rest with
    | one => rfl
    | more => simpa using ih

lemma OperandList.starts (h : OperandList tokens operands) : StartsOperands tokens :=
  ⟨[], operands, by rwa [List.append_nil]⟩

namespace StartsOperands

/-- What begins the beginning of a list begins the list. -/
lemma of_append_cons (h : StartsOperands (before ++ token :: after)) :
    StartsOperands (before ++ [token]) := by
  obtain ⟨more, operands, hlist⟩ := h
  exact ⟨after ++ more, operands, by simpa using hlist⟩

lemma nil : StartsOperands [] := OperandList.starts (.inl ⟨rfl, rfl⟩)

lemma singleton_iff : StartsOperands [token] ↔ Operand.isToken token = true := by
  rw [Operand.isToken_iff]
  constructor
  · rintro ⟨more, operands, ⟨hnil, _⟩ | ⟨hseparated, hall⟩⟩
    · cases hnil
    · exact hall token hseparated.head_mem
  · intro htoken
    exact OperandList.starts (.inr ⟨.one token, by simpa using htoken⟩)

/-- One operand and its separator are taken off. -/
lemma cons_cons_iff : StartsOperands (token :: separator :: rest) ↔
    Operand.isToken token = true ∧ separator.kind = .comma ∧ StartsOperands rest := by
  rw [Operand.isToken_iff]
  constructor
  · rintro ⟨more, operands, ⟨hnil, _⟩ | ⟨hseparated, hall⟩⟩
    · cases hnil
    · cases hseparated with
      | more hcomma hrest =>
        rw [List.forall_mem_cons] at hall
        exact ⟨hall.1, hcomma, more, _, .inr ⟨hrest, hall.2⟩⟩
  · rintro ⟨htoken, hcomma, more, operands, ⟨hnil, _⟩ | ⟨hseparated, hall⟩⟩
    · -- nothing follows the comma as yet, so another operand has to
      obtain ⟨rfl, rfl⟩ := List.append_eq_nil_iff.mp hnil
      exact ⟨[token], [token, token], .inr ⟨.more hcomma (.one token), by simpa using htoken⟩⟩
    · exact ⟨more, token :: operands,
        .inr ⟨.more hcomma hseparated, List.forall_mem_cons.mpr ⟨htoken, hall⟩⟩⟩

end StartsOperands

/-! ### The token out of place -/

/-- Of two tokens out of place neither is behind the other. -/
lemma OutOfPlace.eq_of_append {a b : Token} {between after' : List Token}
    (ha : OutOfPlace before a after) (hb : OutOfPlace (before ++ between) b after')
    (heq : a :: after = between ++ b :: after') : a = b := by
  cases between with
  | nil => exact (List.cons.inj heq).1
  | cons c between =>
    obtain ⟨rfl, rfl⟩ := List.cons.inj heq
    rcases ha.stops with hstops | ⟨_, hnil⟩
    · exact absurd hb.starts.of_append_cons hstops
    · simp at hnil

namespace Misplaced

theorem unique {a b : Token} (ha : Misplaced tokens a) (hb : Misplaced tokens b) : a = b := by
  obtain ⟨before, after, rfl, ha⟩ := ha
  obtain ⟨before', after', heq, hb⟩ := hb
  rcases List.append_eq_append_iff.mp heq with ⟨between, rfl, hrest⟩ | ⟨between, rfl, hrest⟩
  · exact ha.eq_of_append hb hrest
  · exact (hb.eq_of_append ha hrest).symm

/-- A list with a token out of place is no list of operands. -/
theorem not_operandList (h : Misplaced tokens token) : ¬ OperandList tokens operands := by
  obtain ⟨before, after, rfl, hplace⟩ := h
  intro hlist
  rcases hplace.stops with hstops | ⟨hcomma, rfl⟩
  · exact hstops hlist.starts.of_append_cons
  · rcases hlist with ⟨hnil, _⟩ | ⟨hseparated, hall⟩
    · simp at hnil
    · have hlast : operands.getLast? = some token := by simp [hseparated.getLast?_eq]
      have hkind := hall token (List.mem_of_getLast? hlast)
      simp [hcomma] at hkind

lemma cons_cons (htoken : Operand.isToken token = true) (hcomma : separator.kind = .comma)
    {other : Token} (h : Misplaced rest other) : Misplaced (token :: separator :: rest) other := by
  obtain ⟨before, after, rfl, hstarts, hstops⟩ := h
  refine ⟨token :: separator :: before, after, rfl, ?_, ?_⟩
  · exact StartsOperands.cons_cons_iff.mpr ⟨htoken, hcomma, hstarts⟩
  · refine hstops.imp_left fun hstops hmore => hstops ?_
    exact (StartsOperands.cons_cons_iff.mp hmore).2.2

theorem of_splitTokens (h : Operand.splitTokens tokens = .error token) :
    Misplaced tokens token := by
  fun_induction Operand.splitTokens tokens with
  | case1 | case2 => cases h
  | case3 first hfirst =>
    cases h
    exact ⟨[], [], rfl, .nil, .inl (mt StartsOperands.singleton_iff.mp hfirst)⟩
  | case4 first separator rest hfirst =>
    cases h
    refine ⟨[], separator :: rest, rfl, .nil, .inl fun hstarts => ?_⟩
    simp [StartsOperands.singleton_iff.mp hstarts] at hfirst
  | case5 first separator rest hfirst hseparator =>
    obtain rfl := Except.error.inj h
    refine ⟨[first], rest, rfl, StartsOperands.singleton_iff.mpr (by simpa using hfirst), ?_⟩
    by_cases hcomma : separator.kind = .comma
    · exact .inr ⟨hcomma, by simpa [hcomma] using hseparator⟩
    · exact .inl fun hstarts => hcomma (StartsOperands.cons_cons_iff.mp hstarts).2.1
  | case6 first separator rest hfirst hseparator ih =>
    simp only [Bool.or_eq_true, not_or, bne_iff_ne, ne_eq, not_not] at hseparator
    exact cons_cons (by simpa using hfirst) hseparator.1 (ih (map_error_iff.mp h))

end Misplaced

theorem Operand.splitTokens_error_iff :
    splitTokens tokens = .error token ↔ Misplaced tokens token := by
  refine ⟨Misplaced.of_splitTokens, fun h => ?_⟩
  cases hsplit : splitTokens tokens with
  | ok operands => exact absurd (splitTokens_ok_iff_operandList.mp hsplit) h.not_operandList
  | error other => rw [(Misplaced.of_splitTokens hsplit).unique h]

/-! ### The error that is reported -/

namespace Emission

variable {line : ℕ} {head : Token} {span : Span}

/-- What is wrong with an operand token is wrong inside of it. -/
lemma ofOperands_ne_malformed {mnemonic : Mnemonic}
    (hall : ∀ token ∈ operands, Operand.isToken token = true) :
    ofOperands line head mnemonic operands ≠ .error ⟨.malformed, line, span⟩ := by
  intro h
  rcases ofOperands_error_cases h with ⟨_, _, heq⟩ | ⟨token, htoken, kind, hkind, heq⟩ | heq
  · cases heq
  · cases heq
    rcases Operand.ofToken_error hkind with hliteral | ⟨_, hno⟩
    · exact hliteral
    · rw [hall token htoken] at hno
      cases hno
  · cases heq

/-- Behind a word of the shape of a mnemonic, nothing else is reported as malformed than how the
operands are separated. -/
theorem ofTokens_malformed_iff (hkind : head.kind = .word)
    (hshape : Mnemonic.hasShape head.text = true) :
    ofTokens line head tokens = .error ⟨.malformed, line, span⟩ ↔
      ∃ token, Operand.splitTokens tokens = .error token ∧ span = token.span := by
  unfold ofTokens
  rw [if_neg (by simp [hkind, hshape])]
  cases hsplit : Operand.splitTokens tokens with
  | error token => simp [AssemblyErrorKind.atToken, eq_comm]
  | ok operands =>
    have hall : ∀ token ∈ operands, Operand.isToken token = true := by
      rcases Operand.splitTokens_ok_iff.mp hsplit with ⟨_, rfl⟩ | ⟨_, hall⟩
      · simp
      · exact hall
    refine iff_of_false ?_ (by simp)
    dsimp only
    split
    · simp [AssemblyErrorKind.atToken]
    · exact ofOperands_ne_malformed hall

end Emission

/-- Tokens are split into operands exactly if they are none, or operands with single commas between
them. If they are neither, the token out of place is found, and the assembler reports it on its line
with its span, whatever word of the shape of a mnemonic stands in front. -/
theorem operands_are_separated_by_commas (tokens : List Token) :
    (∀ operands, Operand.splitTokens tokens = .ok operands ↔ OperandList tokens operands) ∧
    (∀ token, Operand.splitTokens tokens = .error token ↔ Misplaced tokens token) ∧
    ∀ (line : ℕ) (head : Token) (span : Span), head.kind = .word →
      Mnemonic.hasShape head.text = true →
      (Emission.ofTokens line head tokens = .error ⟨.malformed, line, span⟩ ↔
        ∃ token, Misplaced tokens token ∧ span = token.span) := by
  refine ⟨fun _ => Operand.splitTokens_ok_iff_operandList,
    fun _ => Operand.splitTokens_error_iff, fun line head span hkind hshape => ?_⟩
  rw [Emission.ofTokens_malformed_iff hkind hshape]
  simp only [Operand.splitTokens_error_iff]

theorem operands_are_separated_by_commas_sample :
    let add : Token := ⟨.word, ['a', 'd', 'd'], 0⟩
    let cell : Token := ⟨.address true, ['[', '0', ']'], 4⟩
    let comma : Token := ⟨.comma, [','], 7⟩
    add.kind = .word ∧ Mnemonic.hasShape add.text = true ∧ Misplaced [cell, comma] comma ∧
      Emission.ofTokens 2 add [cell, comma] = .error ⟨.malformed, 2, ⟨7, 1⟩⟩ := by
  intro add cell comma
  obtain ⟨-, herror, hreported⟩ := operands_are_separated_by_commas [cell, comma]
  have hcomma : Misplaced [cell, comma] comma := (herror comma).mp rfl
  have hreport := (hreported 2 add ⟨7, 1⟩ rfl rfl).mpr ⟨comma, hcomma, rfl⟩
  exact ⟨rfl, rfl, hcomma, hreport⟩

/-- A comma at the end is marked itself, and of two commas in a row the second. -/
example : assemble "ADD [0]," = .error ⟨.malformed, 0, ⟨7, 1⟩⟩ ∧
    assemble "ADD [0],, 1" = .error ⟨.malformed, 0, ⟨8, 1⟩⟩ := by
  decide +kernel

end Octet
