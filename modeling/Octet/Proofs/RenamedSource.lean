import Octet.Proofs.Lines
import Octet.Proofs.Renaming
import Octet.Proofs.Tokens

/-!
# Renaming in a source

Labels are renamed in the text of a source by replacing the tokens that they stand in. The new name
may look like a mnemonic or a number, since what a word stands for is decided by its place first.
But it has to keep the dot in front or its absence, because a dot starts a new word where a letter
would go on with the old one. Then the tokens are those of the old source but for the names, and so
are the clauses.
-/
namespace Octet

open Layout

/-! ### Texts -/

/-- A text that is a label becomes the new name, and any other stays. -/
def Label.renameChars (f : Label → Label) (cs : List Char) : List Char :=
  (ofChars? cs).elim cs fun label => (f label).chars

/-- The text of a token, where a label is renamed that stands in it alone or in brackets. -/
def Token.rename (f : Label → Label) (token : Token) : List Char :=
  match token.kind with
  | .word => Label.renameChars f token.text
  | .address true => '[' :: (Label.renameChars f token.inner ++ [']'])
  | _ => token.text

namespace SourceLine

/-- The token where the mnemonic stands: the first one behind the declaration. -/
def mnemonic? (line : SourceLine) : Option Token := (Draft.splitDeclaration line.tokens).2.head?

/-- The text of a line where the labels are renamed. The mnemonic is not one of them, even if it is
written like one. -/
def rename (f : Label → Label) (line : SourceLine) : List Char :=
  (tokenize line.chars line.offset).flatMap fun token =>
    if line.mnemonic? = some token then token.text else token.rename f

end SourceLine

/-- A source where every label is renamed in all places. -/
def renameSource (f : Label → Label) (source : String) : String :=
  String.ofList (Text.joinLines ((SourceLine.ofSource source.toList).map (SourceLine.rename f)))

/-! ### Labels in lines -/

namespace Label

open Token

lemma exists_cons (label : Label) : ∃ c cs, label.chars = c :: cs ∧
    Numeral.StartsLabel c ∧ ∀ d ∈ cs, continuesWord d = true := by
  obtain ⟨cs, hcs⟩ := label
  cases cs with
  | nil => cases hcs
  | cons c cs =>
    simp only [isLabel, Bool.and_eq_true, Bool.or_eq_true, beq_iff_eq] at hcs
    exact ⟨c, cs, rfl, hcs.1, List.all_eq_true.mp hcs.2⟩

lemma startsWord_of_startsLabel {c : Char} (h : Numeral.StartsLabel c) : startsWord c = true := by
  rcases h with rfl | h
  · rfl
  · exact startsWord_of_isAlphanum (by simp [Char.isAlphanum, h])

lemma continuesWord_of_isAlpha {c : Char} (h : c.isAlpha = true) : continuesWord c = true := by
  simp [continuesWord, Char.isAlphanum, h]

lemma not_mem_chars {c : Char} (hdot : c ≠ '.') (hc : continuesWord c = false) (label : Label) :
    c ∉ label.chars := by
  obtain ⟨d, cs, hchars, hfirst, hrest⟩ := label.exists_cons
  rw [hchars, List.mem_cons, not_or]
  refine ⟨?_, fun hmem => ?_⟩
  · rintro rfl
    have hword := continuesWord_of_isAlpha (hfirst.resolve_left hdot)
    rw [hc] at hword
    cases hword
  · rw [hrest c hmem] at hc
    cases hc

lemma lexeme_chars (label : Label) {rest : List Char}
    (hstop : ∀ d ∈ rest.head?, continuesWord d = false) : Lexeme .word label.chars rest := by
  obtain ⟨c, cs, hchars, hfirst, hrest⟩ := label.exists_cons
  rw [hchars]
  exact .word (startsWord_of_startsLabel hfirst) hrest hstop

/-- A word in front of a label ends there only if the label starts with a dot. -/
lemma boundary_chars (label : Label) :
    boundary label.chars = some (false, decide (label.chars.head? ≠ some '.')) := by
  obtain ⟨c, cs, hchars, hfirst, _⟩ := label.exists_cons
  have hblank := not_isBlank_of_startsWord (startsWord_of_startsLabel hfirst)
  have hword : continuesWord c = decide (c ≠ '.') := by
    rcases hfirst with rfl | halpha
    · rfl
    · have hdot : c ≠ '.' := by
        rintro rfl
        cases halpha
      rw [continuesWord_of_isAlpha halpha, decide_eq_true hdot]
  simp [boundary, hchars, hblank, hword]

end Label

/-- The token stands for a label, as a word or in brackets. -/
def Token.Names (token : Token) (label : Label) : Prop :=
  (token.kind = .word ∧ token.text = label.chars) ∨
    (token.kind = .address true ∧ token.inner = label.chars)

section Tokens

variable {f : Label → Label} {token token' : Token} {tokens tokens' : List Token} {label : Label}

lemma Label.renameChars_chars (label : Label) :
    Label.renameChars f label.chars = (f label).chars := by
  rw [renameChars, ofChars?_eq_some_iff.mpr rfl]
  rfl

lemma Label.renameChars_of_not_label {cs : List Char} (h : ∀ label : Label, label.chars ≠ cs) :
    Label.renameChars f cs = cs := by
  cases hlabel : ofChars? cs with
  | none => rw [renameChars, hlabel]; rfl
  | some label => exact absurd (ofChars?_eq_some_iff.mp hlabel) (h label)

/-- A new name fits in the place of the old one. -/
lemma Token.replaces_rename {line : List Char} {offset : ℕ} (htoken : token ∈ tokenize line offset)
    (hdot : ∀ label, token.Names label → label.KeepsDot f) :
    Token.Replaces (token.rename f) token := by
  by_cases hnames : ∃ label, token.Names label
  · obtain ⟨label, ⟨hkind, htext⟩ | ⟨hkind, hinner⟩⟩ := hnames
    · have hrename : token.rename f = (f label).chars := by
        simp only [Token.rename, hkind, htext, Label.renameChars_chars]
      rw [hrename]
      refine ⟨?_, fun rest hlexeme => ?_⟩
      · rw [htext, Label.boundary_chars, Label.boundary_chars]
        simp only [ne_eq, (hdot label (.inl ⟨hkind, htext⟩)).eq]
      · rw [hkind] at hlexeme ⊢
        generalize token.text = text at hlexeme
        cases hlexeme with
        | word _ _ stop => exact (f label).lexeme_chars stop
    · have hrename : token.rename f = '[' :: ((f label).chars ++ [']']) := by
        simp only [Token.rename, hkind, hinner, Label.renameChars_chars]
      rw [hrename]
      refine ⟨?_, fun rest _ => ?_⟩
      · rw [text_eq_of_address htoken hkind]
        rfl
      · rw [hkind]
        exact .address rest ((f label).not_mem_chars (by decide) rfl)
  · have hrename : token.rename f = token.text := by
      unfold Token.rename
      split
      · next hkind =>
        exact Label.renameChars_of_not_label fun label h => hnames ⟨label, .inl ⟨hkind, h.symm⟩⟩
      · next hkind =>
        rw [Label.renameChars_of_not_label fun label h => hnames ⟨label, .inr ⟨hkind, h.symm⟩⟩,
          ← text_eq_of_address htoken hkind]
      · rfl
    rw [hrename]
    exact token.replaces_text

/-! ### Clauses of renamed tokens -/

/-- One token is the other one after its labels have been renamed. -/
def Token.Renamed (f : Label → Label) (token token' : Token) : Prop :=
  token'.kind = token.kind ∧ token'.text = token.rename f

lemma Term.SpelledBy.rename {term : Term} {cs : List Char} (h : term.SpelledBy cs) :
    (term.rename f).SpelledBy (Label.renameChars f cs) := by
  cases term with
  | label l =>
    have hchars : l.chars = cs := h
    rw [← hchars, Label.renameChars_chars]
    rfl
  | byte value =>
    rw [Label.renameChars_of_not_label]
    · exact h
    · intro l hl
      have hnone := Numeral.value?_of_isLabel l.valid
      rw [hl, h] at hnone
      cases hnone

lemma Token.Renamed.inner_eq (h : token.Renamed f token')
    (hkind : token.kind = .character true ∨ token.kind = .text true) :
    token'.inner = token.inner := by
  have htext : token'.text = token.text := by
    rw [h.2, Token.rename]
    rcases hkind with hkind | hkind <;> rw [hkind]
  rw [Token.inner, htext, Token.inner]

lemma Argument.SpelledBy.rename {argument : Argument} (h : argument.SpelledBy token)
    (hrenamed : token.Renamed f token') : (argument.rename f).SpelledBy token' := by
  cases argument with
  | number term =>
    rcases h with ⟨hkind, hterm⟩ | ⟨hkind, c, value, hinner, hc, rfl⟩
    · refine .inl ⟨hrenamed.1.trans hkind, ?_⟩
      rw [hrenamed.2, Token.rename, hkind]
      exact hterm.rename
    · refine .inr ⟨hrenamed.1.trans hkind, c, value, ?_, hc, rfl⟩
      rw [hrenamed.inner_eq (.inl hkind), hinner]
  | address term =>
    refine ⟨hrenamed.1.trans h.1, ?_⟩
    have hinner : token'.inner = Label.renameChars f token.inner := by
      rw [Token.inner, hrenamed.2, Token.rename, h.1]
      simp
    rw [hinner]
    exact h.2.rename
  | text bytes =>
    refine ⟨hrenamed.1.trans h.1, ?_⟩
    rw [hrenamed.inner_eq (.inr h.1)]
    exact h.2

/-- Arguments change as their tokens do. -/
lemma Argument.forall₂_map {R : Token → Token → Prop} {g : Argument → Argument}
    (hchange : ∀ token token' argument, Argument.SpelledBy token argument → R token token' →
      (g argument).SpelledBy token')
    {arguments : List Argument} (h : List.Forall₂ Argument.SpelledBy tokens arguments)
    (hrel : List.Forall₂ R tokens tokens') :
    List.Forall₂ Argument.SpelledBy tokens' (arguments.map g) := by
  induction h generalizing tokens' with
  | nil =>
    cases hrel
    exact .nil
  | cons hargument _ ih =>
    obtain ⟨token', _, htoken, hrest, rfl⟩ := List.forall₂_cons_left_iff.mp hrel
    exact .cons (hchange _ _ _ hargument htoken) (ih hrest)

lemma Separated.forall₂ {R : Token → Token → Prop} {operands : List Token}
    (h : Separated tokens operands) (hkind : ∀ a b, R a b → b.kind = a.kind)
    (hrel : List.Forall₂ R tokens tokens') :
    ∃ operands', Separated tokens' operands' ∧ List.Forall₂ R operands operands' := by
  induction h generalizing tokens' with
  | one token =>
    obtain ⟨token', _, htoken, hnil, rfl⟩ := List.forall₂_cons_left_iff.mp hrel
    cases hnil
    exact ⟨[token'], .one token', .cons htoken .nil⟩
  | more separator _ ih =>
    obtain ⟨token', _, htoken, htail, rfl⟩ := List.forall₂_cons_left_iff.mp hrel
    obtain ⟨comma', _, hcomma, hrest, rfl⟩ := List.forall₂_cons_left_iff.mp htail
    obtain ⟨operands', hseparated, hoperands⟩ := ih hrest
    exact ⟨token' :: operands', .more ((hkind _ _ hcomma).trans separator) hseparated,
      .cons htoken hoperands⟩

lemma Statement.SpelledBy.rename {statement : Statement} {head head' : Token}
    (h : statement.SpelledBy head tokens) (hkind : head'.kind = head.kind)
    (htext : head'.text = head.text) (hrenamed : List.Forall₂ (Token.Renamed f) tokens tokens') :
    (statement.rename f).SpelledBy head' tokens' := by
  obtain ⟨hword, hname, operands, hseparated, harguments⟩ := h
  obtain ⟨operands', hseparated', hoperands⟩ := hseparated.forall₂ (fun _ _ h => h.1) hrenamed
  refine ⟨hkind.trans hword, ?_, operands', hseparated', ?_⟩
  · rw [htext, Statement.mnemonic_rename, hname]
  · rw [Statement.arguments_rename]
    exact Argument.forall₂_map (fun _ _ _ => Argument.SpelledBy.rename) harguments hoperands

/-- The token in front does not come again, so all tokens behind it are treated as others are. -/
lemma Token.forall₂_behind {P Q : Token → Token → Prop} {head : Token}
    (hnodup : (head :: tokens).Nodup) (h : List.Forall₂ P tokens tokens')
    (hother : ∀ token token', P token token' → some head ≠ some token → Q token token') :
    List.Forall₂ Q tokens tokens' := by
  have hfresh : ∀ token ∈ tokens, some head ≠ some token := by
    rintro token htoken heq
    exact (List.nodup_cons.mp hnodup).1 (Option.some.inj heq ▸ htoken)
  rw [List.forall₂_iff_get] at h ⊢
  exact ⟨h.1, fun i hi hi' => hother _ _ (h.2 i hi hi') (hfresh _ (List.get_mem _ _))⟩

/-- Whether a line declares a label is told from the kinds of its tokens. -/
lemma Draft.splitDeclaration_forall₂ {R : Token → Token → Prop}
    (hkind : ∀ a b, R a b → b.kind = a.kind) (h : List.Forall₂ R tokens tokens') :
    Option.Rel R (splitDeclaration tokens).1 (splitDeclaration tokens').1 ∧
      List.Forall₂ R (splitDeclaration tokens).2 (splitDeclaration tokens').2 := by
  rcases h with _ | ⟨hword, _ | ⟨hcolon, hrest⟩⟩
  · exact ⟨.none, .nil⟩
  · exact ⟨.none, .cons hword .nil⟩
  · simp only [splitDeclaration, hkind _ _ hword, hkind _ _ hcolon]
    split_ifs
    · exact ⟨.some hword, hrest⟩
    · exact ⟨.none, .cons hword (.cons hcolon hrest)⟩

/-- One token is the other one after the labels of its line have been renamed, where the mnemonic of
the line stands at a given token. -/
def Token.RenamedBeside (f : Label → Label) (mnemonic? : Option Token) (token token' : Token) :
    Prop :=
  token'.kind = token.kind ∧
    token'.text = if mnemonic? = some token then token.text else token.rename f

lemma Token.RenamedBeside.renamed {mnemonic? : Option Token}
    (h : token.RenamedBeside f mnemonic? token') (hother : mnemonic? ≠ some token) :
    token.Renamed f token' := by
  obtain ⟨hkind, htext⟩ := h
  rw [if_neg hother] at htext
  exact ⟨hkind, htext⟩

lemma StatementSpelledBy.rename {statement : Option Statement}
    (h : StatementSpelledBy tokens statement) (hnodup : tokens.Nodup)
    (hrenamed : List.Forall₂ (Token.RenamedBeside f tokens.head?) tokens tokens') :
    StatementSpelledBy tokens' (statement.map (Statement.rename f)) := by
  cases statement with
  | none =>
    obtain rfl : tokens = [] := h
    exact List.forall₂_nil_left_iff.mp hrenamed
  | some statement =>
    obtain ⟨head, rest, rfl, hstatement⟩ := h
    obtain ⟨head', rest', ⟨hkind, htext⟩, hrest, rfl⟩ := List.forall₂_cons_left_iff.mp hrenamed
    rw [List.head?_cons, if_pos rfl] at htext
    refine ⟨head', rest', rfl, hstatement.rename hkind htext ?_⟩
    exact Token.forall₂_behind hnodup hrest fun _ _ => Token.RenamedBeside.renamed

/-- Tokens of a clause become those of the renamed clause, if the mnemonic keeps its text. -/
theorem Clause.SpelledBy.rename {clause : Clause} (h : clause.SpelledBy tokens)
    (hnodup : tokens.Nodup)
    (hrenamed : List.Forall₂ (Token.RenamedBeside f (Draft.splitDeclaration tokens).2.head?)
      tokens tokens') : (clause.rename f).SpelledBy tokens' := by
  obtain ⟨hdeclared, hstatement⟩ := spelledBy_iff.mp h
  obtain ⟨hword, hback⟩ := Draft.splitDeclaration_forall₂ (fun _ _ h => h.1) hrenamed
  rw [spelledBy_iff]
  rcases hsplit : Draft.splitDeclaration tokens with ⟨_ | word, back⟩
  · obtain rfl := Draft.splitDeclaration_none hsplit
    rw [hsplit] at hdeclared hstatement hword hback
    refine ⟨?_, hstatement.rename hnodup hback⟩
    generalize (Draft.splitDeclaration tokens').1 = word' at hword ⊢
    cases hword
    rw [declared_rename, Option.map_eq_none_iff.mp hdeclared.symm]
    rfl
  · obtain ⟨colon, rfl, hkind, -⟩ := Draft.splitDeclaration_some hsplit
    rw [hsplit] at hdeclared hstatement hword hback
    obtain ⟨hfresh, htail⟩ := List.nodup_cons.mp hnodup
    refine ⟨?_, hstatement.rename (List.nodup_cons.mp htail).2 hback⟩
    have hother : back.head? ≠ some word := fun heq =>
      hfresh (List.mem_cons_of_mem _ (List.mem_of_head? heq))
    obtain ⟨label, hlabel, hchars⟩ := Option.map_eq_some_iff.mp hdeclared.symm
    generalize (Draft.splitDeclaration tokens').1 = word' at hword ⊢
    obtain ⟨hbeside⟩ := hword
    have htext := (hbeside.renamed hother).2
    rw [Token.rename, hkind, ← hchars, Label.renameChars_chars] at htext
    rw [declared_rename, hlabel]
    exact congrArg some htext

/-! ### Labels of clauses -/

lemma Separated.mem {operands : List Token} (h : Separated tokens operands)
    (htoken : token ∈ tokens) : token ∈ operands ∨ token.kind = .comma := by
  induction h with
  | one => exact .inl htoken
  | more separator _ ih =>
    rcases List.mem_cons.mp htoken with rfl | htoken
    · exact .inl List.mem_cons_self
    · rcases List.mem_cons.mp htoken with rfl | htoken
      · exact .inr separator
      · exact (ih htoken).imp_left (List.mem_cons_of_mem _)

lemma Statement.mem_terms {statement : Statement} {term : Term}
    (h : .number term ∈ statement.arguments ∨ .address term ∈ statement.arguments) :
    term ∈ statement.terms := by
  rcases statement with _ | _ | (⟨_, _, _ | _⟩ | ⟨_, _⟩ | ⟨_, _⟩) <;>
    grind [arguments, terms, Phrase.arguments, Phrase.operands, Amount.argument, Amount.term]

lemma Statement.SpelledBy.mem_of_names {statement : Statement} {head : Token}
    (h : statement.SpelledBy head tokens) (htoken : token ∈ tokens) (hnames : token.Names label) :
    .label label ∈ statement.terms := by
  obtain ⟨_, _, operands, hseparated, harguments⟩ := h
  have hoperand : token ∈ operands := by
    refine (hseparated.mem htoken).resolve_right fun hcomma => ?_
    rcases hnames with ⟨hkind, _⟩ | ⟨hkind, _⟩ <;> rw [hcomma] at hkind <;> cases hkind
  obtain ⟨i, hi, rfl⟩ := List.getElem_of_mem hoperand
  obtain ⟨hlength, hspelled⟩ := List.forall₂_iff_get.mp harguments
  have hargument := hspelled i hi (hlength ▸ hi)
  have hmem := List.get_mem statement.arguments ⟨i, hlength ▸ hi⟩
  -- a token is an operand in one way only, and it is one that names the label
  rcases hnames with ⟨hkind, htext⟩ | ⟨hkind, hinner⟩
  · have hlabel : (Argument.number (.label label)).SpelledBy operands[i] :=
      .inl ⟨hkind, htext.symm⟩
    exact Statement.mem_terms (.inl (hargument.unique hlabel ▸ hmem))
  · have hlabel : (Argument.address (.label label)).SpelledBy operands[i] := ⟨hkind, hinner.symm⟩
    exact Statement.mem_terms (.inr (hargument.unique hlabel ▸ hmem))

/-- Whatever stands for a label in a clause, but for its mnemonic, declares or uses it. -/
theorem Clause.SpelledBy.mem_of_names {clause : Clause} (h : clause.SpelledBy tokens)
    (htoken : token ∈ tokens) (hother : (Draft.splitDeclaration tokens).2.head? ≠ some token)
    (hnames : token.Names label) : clause.declared = some label ∨ .label label ∈ clause.terms := by
  obtain ⟨hdeclared, hstatement⟩ := spelledBy_iff.mp h
  rcases hsplit : Draft.splitDeclaration tokens with ⟨word, back⟩
  rw [hsplit] at hdeclared hstatement hother
  have hback (hmem : token ∈ back) : .label label ∈ clause.terms := by
    obtain ⟨declared, _ | statement⟩ := clause
    · obtain rfl : back = [] := hstatement
      cases hmem
    · obtain ⟨head, rest, rfl, hspelled⟩ := hstatement
      have hne : head ≠ token := fun heq => hother (congrArg some heq)
      exact hspelled.mem_of_names ((List.mem_cons.mp hmem).resolve_left hne.symm) hnames
  cases word with
  | none => exact .inr (hback (Draft.splitDeclaration_none hsplit ▸ htoken))
  | some word =>
    obtain ⟨colon, rfl, hword, hcolon⟩ := Draft.splitDeclaration_some hsplit
    obtain ⟨other, hlabel, hchars⟩ := Option.map_eq_some_iff.mp hdeclared.symm
    rcases List.mem_cons.mp htoken with rfl | htoken
    · refine .inl (hlabel.trans (congrArg some ?_))
      rcases hnames with ⟨_, htext⟩ | ⟨hkind, _⟩
      · rw [← Label.ofChars?_eq_some_iff] at hchars
        exact Option.some.inj (hchars.symm.trans (Label.ofChars?_eq_some_iff.mpr htext.symm))
      · rw [hword] at hkind
        cases hkind
    · refine .inr (hback ((List.mem_cons.mp htoken).resolve_left ?_))
      rintro rfl
      rcases hnames with ⟨hkind, _⟩ | ⟨hkind, _⟩ <;> rw [hcolon] at hkind <;> cases hkind

end Tokens

/-! ### Lines and sources -/

namespace SourceLine

variable {f : Label → Label} {line : SourceLine} {clause : Clause}

lemma tokens_nodup (line : SourceLine) : line.tokens.Nodup :=
  (tokenize_nodup line.chars line.offset).filter _

/-- Where labels are renamed, a line holds the clause with the new names. -/
theorem rename_spelledBy (h : clause.SpelledBy line.tokens)
    (hdot : ∀ label, clause.declared = some label ∨ .label label ∈ clause.terms →
      label.KeepsDot f) (number offset : ℕ) :
    (clause.rename f).SpelledBy (SourceLine.tokens ⟨number, offset, line.rename f⟩) := by
  refine h.rename line.tokens_nodup ?_
  have hreplaces : ∀ token ∈ tokenize line.chars line.offset, Token.Replaces
      (if line.mnemonic? = some token then token.text else token.rename f) token := by
    intro token htoken
    split_ifs with hmnemonic
    · exact token.replaces_text
    · refine token.replaces_rename htoken fun label hnames => hdot label ?_
      have hsignificant : token ∈ line.tokens := by
        refine List.mem_filter.mpr ⟨htoken, ?_⟩
        rcases hnames with ⟨hkind, _⟩ | ⟨hkind, _⟩ <;> simp [Token.isSignificant, hkind]
      exact h.mem_of_names hsignificant hmnemonic hnames
  refine List.rel_filter (fun token token' hbeside => ?_) (tokenize_flatMap hreplaces offset)
  simp only [Token.isSignificant, hbeside.1]

/-- A line is still one line when its labels are renamed. -/
lemma newline_not_mem_rename (h : '\n' ∉ line.chars) : '\n' ∉ line.rename f := by
  have hlabel : ∀ cs, '\n' ∉ cs → '\n' ∉ Label.renameChars f cs := by
    intro cs hcs
    cases hlabel : Label.ofChars? cs with
    | none => simpa [Label.renameChars, hlabel] using hcs
    | some label => simpa [Label.renameChars, hlabel] using (f label).not_mem_chars (by decide) rfl
  rw [rename, List.mem_flatMap]
  rintro ⟨token, htoken, hmem⟩
  have htext : '\n' ∉ token.text := fun hnewline => h (by
    rw [← flatMap_text_tokenize line.chars line.offset]
    exact List.mem_flatMap.mpr ⟨token, htoken, hnewline⟩)
  have hinner : '\n' ∉ token.inner := fun hnewline =>
    htext (List.mem_of_mem_tail (List.mem_of_mem_dropLast hnewline))
  split_ifs at hmem
  · exact htext hmem
  · unfold Token.rename at hmem
    split at hmem
    · exact hlabel _ htext hmem
    · simp [hlabel _ hinner] at hmem
    · exact htext hmem

lemma forall₂_rename {lines : List SourceLine} {clauses : List Clause}
    (h : List.Forall₂ (fun line clause => Clause.SpelledBy line.tokens clause) lines clauses)
    (hdot : ∀ clause ∈ clauses, ∀ label, clause.declared = some label ∨
      .label label ∈ clause.terms → label.KeepsDot f) (number offset : ℕ) :
    List.Forall₂ (fun line clause => Clause.SpelledBy line.tokens clause)
      (locate number offset (lines.map (rename f))) (clauses.map (Clause.rename f)) := by
  induction h generalizing number offset with
  | nil => exact .nil
  | cons hclause _ ih =>
    rw [List.forall_mem_cons] at hdot
    exact .cons (rename_spelledBy hclause hdot.1 _ _) (ih hdot.2 _ _)

end SourceLine

theorem Reads.rename {f : Label → Label} {source : String} {clauses : List Clause}
    (h : Reads source clauses)
    (hdot : ∀ label, label ∈ declared clauses ∨ Uses clauses label → label.KeepsDot f) :
    Reads (renameSource f source) (clauses.map (Clause.rename f)) := by
  rw [Reads, renameSource, String.toList_ofList,
    SourceLine.ofSource_joinLines_map fun _ _ => SourceLine.newline_not_mem_rename]
  refine SourceLine.forall₂_rename h (fun clause hclause label hlabel => hdot label ?_) 0 0
  rcases hlabel with hdeclared | hterm
  · exact .inl (mem_declared.mpr ⟨clause, hclause, hdeclared⟩)
  · exact .inr (List.mem_flatMap.mpr ⟨clause, hclause, hterm⟩)

/-- A source whose labels are renamed in all places assembles as before, with the same bytes from
the same lines, and has the new labels where it had the old ones. -/
theorem assemble_renameSource {f : Label → Label} {source : String} {program : Program}
    (h : assemble source = .ok program) (hf : Renames f (program.labels.map Prod.fst)) :
    assemble (renameSource f source) = .ok { program with
      labels := program.labels.map fun (label, offset) => (f label, offset) } := by
  obtain ⟨clauses, hreads, hwell, rfl⟩ := assemble_ok_iff.mp h
  rw [show (Layout.program clauses).labels = labels clauses from rfl, map_fst_labels] at hf
  have hdeclared : ∀ label, label ∈ declared clauses ∨ Uses clauses label →
      label ∈ declared clauses := by
    rintro label (hlabel | huse)
    · exact hlabel
    · exact (hwell.bound label huse).1
  refine assemble_ok_iff.mpr ⟨_, hreads.rename fun label hlabel => hf.dotted label
    (hdeclared label hlabel), hwell.rename hf, ?_⟩
  exact (program_rename hwell hf).symm

/-- A label becomes the mnemonic that it is used with, another one makes a longer word behind a
mnemonic, and comments and texts stay. -/
theorem assemble_renameSource_sample :
    let x : Label := ⟨['x'], rfl⟩
    let y : Label := ⟨['.', 'y'], rfl⟩
    let f : Label → Label := fun label =>
      if label = x then ⟨['j', 'p'], rfl⟩ else ⟨['.', 'A', 'd', 'd'], rfl⟩
    let program : Program := ⟨[11, 2, 2, 0, 120, 120], [(0, 0), (2, 1)], [(x, 0), (y, 2)]⟩
    assemble "x: JP.y ; x\n.y:\tCP [x], 'x'\r\nDB \"x\"" = .ok program ∧
      Renames f (program.labels.map Prod.fst) ∧
      renameSource f "x: JP.y ; x\n.y:\tCP [x], 'x'\r\nDB \"x\"" =
        "jp: JP.Add ; x\n.Add:\tCP [jp], 'x'\r\nDB \"x\"" ∧
      assemble "jp: JP.Add ; x\n.Add:\tCP [jp], 'x'\r\nDB \"x\"" =
        .ok { program with labels := [(f x, 0), (f y, 2)] } := by
  intro x y f program
  have hok : assemble "x: JP.y ; x\n.y:\tCP [x], 'x'\r\nDB \"x\"" = .ok program := by
    decide +kernel
  have hf : Renames f (program.labels.map Prod.fst) := ⟨by decide, by decide⟩
  have htext : renameSource f "x: JP.y ; x\n.y:\tCP [x], 'x'\r\nDB \"x\"" =
      "jp: JP.Add ; x\n.Add:\tCP [jp], 'x'\r\nDB \"x\"" := by
    decide +kernel
  exact ⟨hok, hf, htext, htext ▸ assemble_renameSource hok hf⟩

end Octet
