import Octet.Proofs.Drafting
import Octet.Proofs.Lines
import Octet.Proofs.Tokens

/-!
# Moved tokens

What a line is read as does not depend on where it stands. Only references and errors tell places,
and they move with the tokens that they were read from.
-/
namespace Octet

open Results

/-- Where the lines and the bytes of a source are found in another one. -/
structure Relocation where
  line : ℕ → ℕ
  offset : ℕ → ℕ

/-- Everything moves behind so many lines and bytes. -/
def Relocation.behind (lines bytes : ℕ) : Relocation := ⟨(· + lines), (· + bytes)⟩

def Span.relocate (r : Relocation) (span : Span) : Span := ⟨r.offset span.offset, span.length⟩

def Token.relocate (r : Relocation) (token : Token) : Token :=
  { token with offset := r.offset token.offset }

def Cell.relocate (r : Relocation) : Cell → Cell
  | .byte value => .byte value
  | .reference use => .reference ⟨use.label, r.line use.line, use.span.relocate r⟩

def Operand.relocate (r : Relocation) : Operand → Operand
  | .number cell => .number (cell.relocate r)
  | .address cell => .address (cell.relocate r)
  | .text bytes => .text bytes

def Emission.relocate (r : Relocation) : Emission → Emission
  | .instruction op operands => .instruction op (operands.map (Cell.relocate r))
  | .data cells => .data (cells.map (Cell.relocate r))

def AssemblyError.relocate (r : Relocation) (error : AssemblyError) : AssemblyError :=
  ⟨error.kind, r.line error.line, error.span.relocate r⟩

/-- The result at the new place, if `f` tells what a success becomes there. -/
def Relocation.result {α : Type} (r : Relocation) (f : α → α) :
    Except AssemblyError α → Except AssemblyError α
  | .ok a => .ok (f a)
  | .error error => .error (error.relocate r)

variable (r : Relocation) (line : ℕ)

namespace Token

@[simp] theorem kind_relocate (token : Token) : (token.relocate r).kind = token.kind := rfl

@[simp] theorem text_relocate (token : Token) : (token.relocate r).text = token.text := rfl

@[simp] theorem inner_relocate (token : Token) : (token.relocate r).inner = token.inner := rfl

@[simp] theorem span_relocate (token : Token) :
    (token.relocate r).span = token.span.relocate r := rfl

end Token

@[simp] theorem AssemblyErrorKind.atToken_relocate (kind : AssemblyErrorKind) (token : Token) :
    kind.atToken (r.line line) (token.relocate r) = (kind.atToken line token).relocate r := rfl

/-! ### Operands -/

theorem Cell.ofChars_relocate (role : NumberRole) (span : Span) (cs : List Char) :
    Cell.ofChars role (r.line line) (span.relocate r) cs =
      (Cell.ofChars role line span cs).map (Cell.relocate r) := by
  unfold Cell.ofChars
  cases Label.ofChars? cs with
  | some label => rfl
  | none =>
    cases Numeral.value? cs with
    | none => rfl
    | some n =>
      dsimp only
      cases byteOfNumber role n <;> rfl

namespace Operand

theorem ofToken_relocate (token : Token) : ofToken (r.line line) (token.relocate r) =
    (ofToken line token).map (Operand.relocate r) := by
  unfold ofToken
  simp only [Token.kind_relocate, Token.text_relocate, Token.inner_relocate, Token.span_relocate,
    Cell.ofChars_relocate]
  split
  · cases Cell.ofChars .number line token.span token.text <;> rfl
  · cases Cell.ofChars .address line token.span token.inner <;> rfl
  · cases token.inner.mapM byteOfChar <;> rfl
  · split
    · next c _ => cases byteOfChar c <;> rfl
    · rfl
  · rfl

/-- Whether a token is out of place is told from the kinds of the tokens. -/
theorem splitTokens_map {f : Token → Token} (hkind : ∀ token, (f token).kind = token.kind)
    (tokens : List Token) : splitTokens (tokens.map f) =
      ((splitTokens tokens).map (List.map f)).mapError f := by
  have htoken (token : Token) : isToken (f token) = isToken token := by
    rw [isToken, hkind, isToken]
  fun_induction splitTokens tokens with
  | case1 => rfl
  | case2 token h => simp [splitTokens, htoken, h, Except.map, Except.mapError]
  | case3 token h => simp [splitTokens, htoken, h, Except.map, Except.mapError]
  | case4 token separator rest h => simp [splitTokens, htoken, h, Except.map, Except.mapError]
  | case5 token separator rest hfirst hseparator =>
    simp_all [splitTokens, Except.map, Except.mapError]
  | case6 token separator rest hfirst hseparator ih =>
    simp only [List.map_cons, splitTokens, htoken, hkind, List.isEmpty_map, hfirst, hseparator,
      if_false, Bool.false_eq_true, ih]
    cases splitTokens rest <;> rfl

/-- Operand tokens are read as the same operands at their new places, or give the same error. -/
lemma mapM_ofToken_relocate (tokens : List Token) :
    ((tokens.map (Token.relocate r)).mapM fun token =>
        (ofToken (r.line line) token).mapError (·.atToken (r.line line) token)) =
      r.result (List.map (Operand.relocate r))
        (tokens.mapM fun token => (ofToken line token).mapError (·.atToken line token)) := by
  induction tokens with
  | nil => rfl
  | cons token tokens ih =>
    rw [List.map_cons, List.mapM_cons, List.mapM_cons, ih, ofToken_relocate]
    cases ofToken line token with
    | error kind => rfl
    | ok operand =>
      generalize (tokens.mapM fun token => (ofToken line token).mapError (·.atToken line token)) =
        rest
      cases rest <;> rfl

end Operand

/-! ### Statements -/

lemma Mnemonic.encode?_relocate (mnemonic : Mnemonic) (operands : List Operand) :
    mnemonic.encode? (operands.map (Operand.relocate r)) =
      (mnemonic.encode? operands).map (Emission.relocate r) := by
  rcases operands with _ | ⟨a, _ | ⟨b, _ | ⟨c, operands⟩⟩⟩
  case nil => cases mnemonic <;> rfl
  case cons.nil =>
    cases mnemonic <;> cases a <;>
      simp [encode?, Operand.relocate, Emission.relocate, Cell.relocate]
  case cons.cons.nil => cases mnemonic <;> cases a <;> cases b <;> rfl
  case cons.cons.cons => cases mnemonic <;> cases a <;> cases b <;> rfl

namespace Emission

theorem ofOperands_relocate (head : Token) (mnemonic : Mnemonic) (operands : List Token) :
    ofOperands (r.line line) (head.relocate r) mnemonic (operands.map (Token.relocate r)) =
      r.result (Emission.relocate r) (ofOperands line head mnemonic operands) := by
  unfold ofOperands
  rw [List.getElem?_map, List.length_map, Operand.mapM_ofToken_relocate]
  cases operands[mnemonic.arity]? with
  | some extra => rfl
  | none =>
    dsimp only [Option.map]
    split_ifs
    · rfl
    · cases operands.mapM fun token =>
          (Operand.ofToken line token).mapError (·.atToken line token) with
      | error => rfl
      | ok values =>
        simp only [Relocation.result, bind, Except.bind, Mnemonic.encode?_relocate]
        cases mnemonic.encode? values <;> rfl

/-- A line that is moved emits the same at its new place, or gives the same error there. -/
theorem ofTokens_relocate (head : Token) (rest : List Token) :
    ofTokens (r.line line) (head.relocate r) (rest.map (Token.relocate r)) =
      r.result (Emission.relocate r) (ofTokens line head rest) := by
  unfold ofTokens
  rw [Token.kind_relocate, Token.text_relocate, Operand.splitTokens_map (Token.kind_relocate r)]
  split_ifs
  · rfl
  · cases Operand.splitTokens rest with
    | error => rfl
    | ok operands =>
      cases hmnemonic : Mnemonic.ofChars? head.text with
      | none => rfl
      | some mnemonic => exact ofOperands_relocate r line head mnemonic operands

end Emission

/-! ### Lines -/

/-- A label is told from the kinds of the tokens, too. -/
lemma Draft.splitDeclaration_map {f : Token → Token}
    (hkind : ∀ token, (f token).kind = token.kind) (tokens : List Token) :
    splitDeclaration (tokens.map f) =
      ((splitDeclaration tokens).1.map f, (splitDeclaration tokens).2.map f) := by
  rcases tokens with _ | ⟨word, _ | ⟨colon, rest⟩⟩
  · rfl
  · rfl
  · by_cases hkinds : word.kind = .word ∧ colon.kind = .colon
    · simp [splitDeclaration, hkind, hkinds]
    · simp [splitDeclaration, hkind, hkinds]

/-- Moving a line moves its tokens and leaves them alone otherwise. -/
theorem tokenize_behind (lines bytes : ℕ) (line : List Char) (offset : ℕ) :
    tokenize line (offset + bytes) =
      (tokenize line offset).map (Token.relocate (.behind lines bytes)) := by
  fun_induction tokenize line offset with
  | case1 => simp [tokenize]
  | case2 offset c cs first ih =>
    have hstop : offset + bytes + Text.byteLength first.text = first.span.stop + bytes := by
      simp only [first, Span.stop, Token.span]
      omega
    rw [tokenize, List.map_cons, ← ih, ← hstop]
    rfl

def SourceLine.relocate (r : Relocation) (line : SourceLine) : SourceLine :=
  ⟨r.line line.number, r.offset line.offset, line.chars⟩

theorem SourceLine.tokens_behind (lines bytes : ℕ) (line : SourceLine) :
    (line.relocate (.behind lines bytes)).tokens =
      line.tokens.map (Token.relocate (.behind lines bytes)) := by
  have htokens : tokenize line.chars (line.offset + bytes) =
      (tokenize line.chars line.offset).map (Token.relocate (.behind lines bytes)) :=
    tokenize_behind lines bytes _ _
  rw [tokens, relocate, tokens]
  dsimp only [Relocation.behind]
  rw [htokens, List.filter_map]
  rfl

theorem SourceLine.locate_behind (lines bytes number offset : ℕ) (pieces : List (List Char)) :
    locate (number + lines) (offset + bytes) pieces =
      (locate number offset pieces).map (SourceLine.relocate (.behind lines bytes)) := by
  induction pieces generalizing number offset with
  | nil => rfl
  | cons cs pieces ih =>
    rw [locate, locate, List.map_cons, ← ih]
    congr 2 <;> omega

end Octet
