import Octet.Assembly.Draft
import Octet.Instruction.Basic
import Octet.Proofs.Numeral

/-!
# The language of sources

What a source may hold, told on the tokens of its lines. A line declares at most one label and
states at most one thing. The accepted forms of a statement are the values of `Statement`, so that a
form which cannot be assembled has no value here. A source is read in at most one way.
-/
namespace Octet

/-- What stands for one byte: a label, or the byte itself. -/
inductive Term where
  | label (label : Label)
  | byte (value : UInt8)
  deriving DecidableEq

/-- A second operand gives a byte literally, or names the cell that holds it. -/
inductive Amount where
  | literal (term : Term)
  | cell (term : Term)
  deriving DecidableEq

/-- Operations of two operands, the first of which is their target. -/
inductive BinaryOperation where
  | copy
  | add
  | subtract
  | compare
  deriving DecidableEq

/-- Operations of one operand in brackets. -/
inductive UnaryOperation where
  | increment
  | decrement
  | printDecimal
  | printText
  deriving DecidableEq

/-- An instruction as it is written. -/
inductive Phrase where
  | binary (operation : BinaryOperation) (target : Term) (amount : Amount)
  | unary (operation : UnaryOperation) (operand : Term)
  | jump (condition : Condition) (target : Term)
  deriving DecidableEq

/-- What a line states: a byte of data, a text, or an instruction. -/
inductive Statement where
  | data (term : Term)
  | text (bytes : List UInt8)
  | instruction (phrase : Phrase)
  deriving DecidableEq

/-- What one line holds. -/
@[ext]
structure Clause where
  declared : Option Label
  statement : Option Statement
  deriving DecidableEq

/-- An operand as it is written. -/
inductive Argument where
  | number (term : Term)
  | address (term : Term)
  | text (bytes : List UInt8)
  deriving DecidableEq

def Phrase.mnemonic : Phrase → Mnemonic
  | .binary .copy _ _ => .cp
  | .binary .add _ _ => .add
  | .binary .subtract _ _ => .sub
  | .binary .compare _ _ => .cmp
  | .unary .increment _ => .inc
  | .unary .decrement _ => .dec
  | .unary .printDecimal _ => .prnd
  | .unary .printText _ => .prns
  | .jump .always _ => .jp
  | .jump .carry _ => .jc
  | .jump .noCarry _ => .jnc
  | .jump .zero _ => .jz
  | .jump .notZero _ => .jnz

/-- The second operand of an operation stands in brackets if it names a cell. -/
def Amount.argument : Amount → Argument
  | .literal term => .number term
  | .cell term => .address term

def Phrase.arguments : Phrase → List Argument
  | .binary _ target amount => [.address target, amount.argument]
  | .unary _ operand => [.address operand]
  | .jump _ target => [.number target]

def Statement.mnemonic : Statement → Mnemonic
  | .data _ | .text _ => .db
  | .instruction phrase => phrase.mnemonic

def Statement.arguments : Statement → List Argument
  | .data term => [.number term]
  | .text bytes => [.text bytes]
  | .instruction phrase => phrase.arguments

/-- A text stands for the label that it is, or for the byte that it denotes as a numeral. -/
def Term.SpelledBy (cs : List Char) : Term → Prop
  | .label l => l.chars = cs
  | .byte value => Numeral.value? cs = some (value.toNat : Int)

/-- A token stands for an operand by its kind and its text. A character and the characters of a text
stand for their code points. -/
def Argument.SpelledBy (token : Token) : Argument → Prop
  | .number term =>
    (token.kind = .word ∧ term.SpelledBy token.text) ∨
      (token.kind = .character true ∧
        ∃ c value, token.inner = [c] ∧ c.toNat = value.toNat ∧ term = .byte value)
  | .address term => token.kind = .address true ∧ term.SpelledBy token.inner
  | .text bytes => token.kind = .text true ∧ token.inner.map Char.toNat = bytes.map UInt8.toNat

/-- Tokens, at least one, with single commas between them. -/
inductive Separated : List Token → List Token → Prop
  | one (token : Token) : Separated [token] [token]
  | more {token comma : Token} {tokens operands : List Token} (separator : comma.kind = .comma)
      (rest : Separated tokens operands) : Separated (token :: comma :: tokens) (token :: operands)

/-- A statement is its mnemonic in any letter case and its operands, separated by commas. -/
def Statement.SpelledBy (head : Token) (rest : List Token) (statement : Statement) : Prop :=
  head.kind = .word ∧ head.text.map Char.toUpper = statement.mnemonic.name.toList ∧
    ∃ operands, Separated rest operands ∧
      List.Forall₂ Argument.SpelledBy operands statement.arguments

/-- A declaration is a label and a colon. -/
def DeclarationSpelledBy (tokens : List Token) : Option Label → Prop
  | none => tokens = []
  | some label => ∃ word colon, tokens = [word, colon] ∧ word.kind = .word ∧
      word.text = label.chars ∧ colon.kind = .colon

def StatementSpelledBy (tokens : List Token) : Option Statement → Prop
  | none => tokens = []
  | some statement => ∃ head rest, tokens = head :: rest ∧ statement.SpelledBy head rest

/-- A line holds a declaration or none, and then a statement or none. -/
def Clause.SpelledBy (tokens : List Token) (clause : Clause) : Prop :=
  ∃ front back, tokens = front ++ back ∧ DeclarationSpelledBy front clause.declared ∧
    StatementSpelledBy back clause.statement

/-- The lines of a source hold these clauses, one each. -/
def Reads (source : String) (clauses : List Clause) : Prop :=
  List.Forall₂ (fun line clause => clause.SpelledBy line.tokens)
    (SourceLine.ofSource source.toList) clauses

/-! ### Mnemonics -/

namespace Mnemonic

theorem ofChars?_name (mnemonic : Mnemonic) : ofChars? mnemonic.name.toList = some mnemonic := by
  cases mnemonic <;> rfl

lemma map_toUpper_name (mnemonic : Mnemonic) :
    mnemonic.name.toList.map Char.toUpper = mnemonic.name.toList := by
  cases mnemonic <;> rfl

theorem ofChars?_eq_some_iff {cs : List Char} {mnemonic : Mnemonic} :
    ofChars? cs = some mnemonic ↔ cs.map Char.toUpper = mnemonic.name.toList := by
  constructor
  · intro h
    have hname := List.find?_some h
    exact (of_decide_eq_true hname).symm
  · intro h
    rw [← ofChars?_name mnemonic]
    unfold ofChars?
    rw [h, map_toUpper_name]

lemma isAlpha_of_isAlpha_toUpper {c : Char} (h : c.toUpper.isAlpha = true) : c.isAlpha = true := by
  by_cases hlower : 97 ≤ c.toNat ∧ c.toNat ≤ 122
  · exact Numeral.isAlpha_iff_toNat.mpr (.inr hlower)
  · have hsame : c.toUpper = c := by
      unfold Char.toUpper
      rw [dif_neg]
      simpa [UInt32.le_iff_toNat_le, ← Char.toNat_val] using hlower
    rwa [hsame] at h

/-- A word that names a mnemonic has two to four letters. -/
theorem hasShape_of_names {cs : List Char} {mnemonic : Mnemonic}
    (h : cs.map Char.toUpper = mnemonic.name.toList) : hasShape cs = true := by
  have hshape : hasShape mnemonic.name.toList = true := by cases mnemonic <;> rfl
  simp only [hasShape, Bool.and_eq_true, decide_eq_true_eq, ← h, List.length_map,
    List.all_map] at hshape ⊢
  refine ⟨hshape.1, List.all_eq_true.mpr fun c hc => ?_⟩
  exact isAlpha_of_isAlpha_toUpper (List.all_eq_true.mp hshape.2 c hc)

end Mnemonic

/-! ### Unique reading -/

lemma Term.SpelledBy.unique {cs : List Char} {s t : Term} (hs : s.SpelledBy cs)
    (ht : t.SpelledBy cs) : s = t := by
  cases s with
  | label l =>
    have hnone := Numeral.value?_of_isLabel l.valid
    cases t with
    | label k =>
      have hchars : l.chars = k.chars := hs.trans ht.symm
      obtain ⟨_, _⟩ := l
      obtain ⟨_, _⟩ := k
      simpa using hchars
    | byte v => rw [hs, ht] at hnone; cases hnone
  | byte v =>
    cases t with
    | label k =>
      have hnone := Numeral.value?_of_isLabel k.valid
      rw [ht, hs] at hnone
      cases hnone
    | byte w =>
      have heq := Option.some.inj (hs.symm.trans ht)
      rw [UInt8.toNat_inj.mp (Int.ofNat.inj heq)]

lemma Argument.SpelledBy.unique {token : Token} {a b : Argument} (ha : a.SpelledBy token)
    (hb : b.SpelledBy token) : a = b := by
  cases a <;> cases b <;> simp only [SpelledBy] at ha hb
  case number.number s t =>
    rcases ha with ⟨hk, hs⟩ | ⟨hk, c, v, hc, hv, rfl⟩ <;>
      rcases hb with ⟨hk', ht⟩ | ⟨hk', d, w, hd, hw, rfl⟩
    · rw [hs.unique ht]
    · rw [hk] at hk'; cases hk'
    · rw [hk] at hk'; cases hk'
    · rw [hc] at hd
      obtain ⟨rfl, _⟩ := List.cons.inj hd
      rw [UInt8.toNat_inj.mp (hv.symm.trans hw)]
  case address.address s t => rw [ha.2.unique hb.2]
  case text.text s t =>
    have hmap := ha.2.symm.trans hb.2
    rw [List.map_injective_iff.mpr (fun _ _ h => UInt8.toNat_inj.mp h) hmap]
  -- operands of different forms differ in the kind of their token
  all_goals grind

lemma Separated.unique {tokens a b : List Token} (ha : Separated tokens a)
    (hb : Separated tokens b) : a = b := by
  induction ha generalizing b with
  | one token =>
    cases hb
    rfl
  | more _ rest ih =>
    cases hb with
    | more _ rest' => rw [ih rest']

/-- The statement of a mnemonic with these operands, if they make an accepted form. -/
def Statement.ofForm? : Mnemonic → List Argument → Option Statement
  | .db, [.number term] => some (.data term)
  | .db, [.text bytes] => some (.text bytes)
  | .cp, [.address a, .number b] => some (.instruction (.binary .copy a (.literal b)))
  | .cp, [.address a, .address b] => some (.instruction (.binary .copy a (.cell b)))
  | .add, [.address a, .number b] => some (.instruction (.binary .add a (.literal b)))
  | .add, [.address a, .address b] => some (.instruction (.binary .add a (.cell b)))
  | .sub, [.address a, .number b] => some (.instruction (.binary .subtract a (.literal b)))
  | .sub, [.address a, .address b] => some (.instruction (.binary .subtract a (.cell b)))
  | .cmp, [.address a, .number b] => some (.instruction (.binary .compare a (.literal b)))
  | .cmp, [.address a, .address b] => some (.instruction (.binary .compare a (.cell b)))
  | .inc, [.address a] => some (.instruction (.unary .increment a))
  | .dec, [.address a] => some (.instruction (.unary .decrement a))
  | .prnd, [.address a] => some (.instruction (.unary .printDecimal a))
  | .prns, [.address a] => some (.instruction (.unary .printText a))
  | .jp, [.number a] => some (.instruction (.jump .always a))
  | .jc, [.number a] => some (.instruction (.jump .carry a))
  | .jnc, [.number a] => some (.instruction (.jump .noCarry a))
  | .jz, [.number a] => some (.instruction (.jump .zero a))
  | .jnz, [.number a] => some (.instruction (.jump .notZero a))
  | _, _ => none

theorem Statement.ofForm?_eq_some_iff {mnemonic : Mnemonic} {arguments : List Argument}
    {statement : Statement} : ofForm? mnemonic arguments = some statement ↔
      statement.mnemonic = mnemonic ∧ statement.arguments = arguments := by
  constructor
  · intro h
    unfold ofForm? at h
    split at h <;> cases h <;> exact ⟨rfl, rfl⟩
  · rintro ⟨rfl, rfl⟩
    rcases statement with term | bytes | (⟨_ | _, _, _ | _⟩ | ⟨_ | _, _⟩ | ⟨_ | _, _⟩) <;> rfl

lemma Statement.SpelledBy.unique {head : Token} {rest : List Token} {s t : Statement}
    (hs : s.SpelledBy head rest) (ht : t.SpelledBy head rest) : s = t := by
  obtain ⟨_, hsname, operands, hsep, hsargs⟩ := hs
  obtain ⟨_, htname, operands', hsep', htargs⟩ := ht
  have hmnemonic : s.mnemonic = t.mnemonic := by
    rw [← Mnemonic.ofChars?_eq_some_iff] at hsname htname
    exact Option.some.inj (hsname.symm.trans htname)
  obtain rfl := hsep.unique hsep'
  have harguments : s.arguments = t.arguments :=
    Relator.RightUnique.forall₂ (fun _ _ _ ha hb => ha.unique hb) hsargs htargs
  have hs := Statement.ofForm?_eq_some_iff.mpr ⟨hmnemonic, harguments⟩
  have ht := Statement.ofForm?_eq_some_iff.mpr ⟨(rfl : t.mnemonic = _), (rfl : t.arguments = _)⟩
  exact Option.some.inj (hs.symm.trans ht)

lemma Argument.SpelledBy.isToken {token : Token} {argument : Argument}
    (h : argument.SpelledBy token) : Operand.isToken token = true := by
  cases argument with
  | number => rcases h with ⟨hk, _⟩ | ⟨hk, _⟩ <;> simp [Operand.isToken, hk]
  | address => simp [Operand.isToken, h.1]
  | text => simp [Operand.isToken, h.1]

/-- No statement has a colon behind its mnemonic. -/
lemma Statement.SpelledBy.not_colon {head colon : Token} {rest : List Token}
    {statement : Statement} (h : statement.SpelledBy head (colon :: rest)) :
    colon.kind ≠ .colon := by
  obtain ⟨_, _, operands, hsep, hargs⟩ := h
  intro hcolon
  generalize statement.arguments = arguments at hargs
  have hfirst : Operand.isToken colon = true := by
    cases hsep <;> cases hargs <;> exact Argument.SpelledBy.isToken ‹_›
  simp [Operand.isToken, hcolon] at hfirst

lemma StatementSpelledBy.unique {tokens : List Token} {s t : Option Statement}
    (hs : StatementSpelledBy tokens s) (ht : StatementSpelledBy tokens t) : s = t := by
  cases s <;> cases t <;> simp only [StatementSpelledBy] at hs ht
  case none.some | some.none => grind
  case some.some =>
    obtain ⟨head, rest, rfl, hs⟩ := hs
    obtain ⟨head', rest', heq, ht⟩ := ht
    obtain ⟨rfl, rfl⟩ := List.cons.inj heq
    rw [hs.unique ht]
  case none.none => rfl

/-- Two tokens are a declaration exactly if they are a word and a colon, whatever follows. -/
theorem Clause.spelledBy_iff {tokens : List Token} {clause : Clause} : clause.SpelledBy tokens ↔
    (Draft.splitDeclaration tokens).1.map Token.text = clause.declared.map Label.chars ∧
      StatementSpelledBy (Draft.splitDeclaration tokens).2 clause.statement := by
  obtain ⟨declared, statement⟩ := clause
  constructor
  · rintro ⟨front, back, rfl, hfront, hback⟩
    cases declared with
    | none =>
      obtain rfl : front = [] := hfront
      have hsplit : Draft.splitDeclaration back = (none, back) := by
        unfold Draft.splitDeclaration
        split
        · next word colon rest =>
          rw [if_neg]
          rintro ⟨_, hcolon⟩
          cases statement with
          | none => cases hback
          | some s =>
            obtain ⟨head, rest', heq, hs⟩ := hback
            obtain ⟨rfl, rfl⟩ := List.cons.inj heq
            exact hs.not_colon hcolon
        · rfl
      rw [List.nil_append, hsplit]
      exact ⟨rfl, hback⟩
    | some label =>
      obtain ⟨word, colon, rfl, hword, htext, hcolon⟩ := hfront
      have hsplit : Draft.splitDeclaration (word :: colon :: back) = (some word, back) :=
        if_pos ⟨hword, hcolon⟩
      rw [List.cons_append, List.cons_append, List.nil_append, hsplit]
      exact ⟨congrArg some htext, hback⟩
  · intro ⟨hdeclared, hstatement⟩
    revert hdeclared hstatement
    unfold Draft.splitDeclaration
    split
    · next word colon rest =>
      split_ifs with hkinds
      · intro hdeclared hstatement
        cases declared with
        | none => cases hdeclared
        | some label =>
          exact ⟨[word, colon], rest, rfl, ⟨word, colon, rfl, hkinds.1, Option.some.inj hdeclared,
            hkinds.2⟩, hstatement⟩
      · intro hdeclared hstatement
        cases declared with
        | none => exact ⟨[], _, rfl, rfl, hstatement⟩
        | some label => cases hdeclared
    · intro hdeclared hstatement
      cases declared with
      | none => exact ⟨[], _, rfl, rfl, hstatement⟩
      | some label => cases hdeclared

lemma Label.chars_injective : Function.Injective Label.chars := by
  rintro ⟨_, _⟩ ⟨_, _⟩ h
  simpa using h

lemma Clause.SpelledBy.unique {tokens : List Token} {a b : Clause} (ha : a.SpelledBy tokens)
    (hb : b.SpelledBy tokens) : a = b := by
  obtain ⟨hadeclared, hastatement⟩ := Clause.spelledBy_iff.mp ha
  obtain ⟨hbdeclared, hbstatement⟩ := Clause.spelledBy_iff.mp hb
  rw [hadeclared] at hbdeclared
  exact Clause.ext (Option.map_injective Label.chars_injective hbdeclared)
    (hastatement.unique hbstatement)

/-- A source is read in at most one way. -/
theorem Reads.unique {source : String} {a b : List Clause} (ha : Reads source a)
    (hb : Reads source b) : a = b :=
  Relator.RightUnique.forall₂ (fun _ _ _ h h' => h.unique h') ha hb

end Octet
