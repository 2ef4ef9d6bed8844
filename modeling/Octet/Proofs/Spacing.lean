import Octet.Proofs.Listing
import Octet.Proofs.Relocation
import Octet.Proofs.RenamedSource

/-!
# Spacing

Blanks and comments tell nothing. Two sources whose lines hold the same tokens apart from these are
assembled alike, or are rejected for the same reason on the same line. The proof moves every token
to the same place, which loses all that differs. What is moved so is read as before, and errors are
found in the same order. The letter case of a mnemonic tells nothing, either.
-/
namespace Octet

open Results Layout

/-! ### Moved drafts -/

section Moved

variable (r : Relocation)

def Draft.relocate (draft : Draft) : Draft where
  cells := draft.cells.map (Cell.relocate r)
  mapping := draft.mapping.map fun (offset, line) => (offset, r.line line)
  labels := draft.labels

def Program.relocate (program : Program) : Program :=
  { program with mapping := program.mapping.map fun (offset, line) => (offset, r.line line) }

/-- What comes next moves along. -/
lemma Relocation.result_bind {α β : Type} {f : α → α} {g : β → β} {x : Except AssemblyError α}
    {y y' : α → Except AssemblyError β} (h : ∀ a, y' (f a) = r.result g (y a)) :
    (r.result f x >>= y') = r.result g (x >>= y) := by
  cases x with
  | error => rfl
  | ok a => exact h a

/-- Moving a result is a way to see it. -/
lemma Relocation.result_eq_view {α : Type} (f : α → α) (x : Except AssemblyError α) :
    r.result f x = view f (AssemblyError.relocate r) x := by
  cases x <;> rfl

/-- Results that differ in places only still do, whatever comes next. -/
lemma Relocation.result_bind_congr {α β : Type} {f : α → α} {g : β → β}
    {x x' : Except AssemblyError α} {y y' : α → Except AssemblyError β}
    (hx : r.result f x = r.result f x')
    (hy : ∀ a a', f a = f a' → r.result g (y a) = r.result g (y' a')) :
    r.result g (x >>= y) = r.result g (x' >>= y') := by
  simp only [result_eq_view] at hx hy ⊢
  exact view_bind_congr hx hy

namespace Draft

variable (draft : Draft) (line : ℕ)

lemma emit_relocate (emission : Emission) :
    (draft.relocate r).emit (r.line line) (emission.relocate r) =
      (draft.emit line emission).relocate r := by
  cases emission <;> simp [emit, relocate, Emission.relocate, Emission.cells, Cell.relocate]

lemma declare_relocate (label : Label) (span : Span) :
    (draft.relocate r).declare label (r.line line) (span.relocate r) =
      r.result (relocate r) (draft.declare label line span) := by
  have hdeclares : (draft.relocate r).Declares label ↔ draft.Declares label := Iff.rfl
  unfold declare
  by_cases h : draft.Declares label
  · rw [if_pos (hdeclares.mpr h), if_pos h]
    rfl
  · rw [if_neg (mt hdeclares.mp h), if_neg h]
    simp [relocate, Relocation.result]

lemma addStatement_relocate (tokens : List Token) :
    (draft.relocate r).addStatement (r.line line) (tokens.map (Token.relocate r)) =
      r.result (relocate r) (draft.addStatement line tokens) := by
  cases tokens with
  | nil => rfl
  | cons head rest =>
    rw [List.map_cons, addStatement, addStatement, Emission.ofTokens_relocate]
    refine r.result_bind fun emission => ?_
    have hfits : ((draft.emit line emission).relocate r).Fits ↔
        (draft.emit line emission).Fits := by
      simp [Fits, relocate]
    dsimp only
    rw [emit_relocate]
    by_cases h : (draft.emit line emission).Fits
    · rw [if_pos (hfits.mpr h), if_pos h]
      rfl
    · rw [if_neg (mt hfits.mp h), if_neg h]
      rfl

/-- A line adds the same to a moved draft, moved itself, or gives its error there. -/
theorem addTokens_relocate (tokens : List Token) :
    (draft.relocate r).addTokens (r.line line) (tokens.map (Token.relocate r)) =
      r.result (relocate r) (draft.addTokens line tokens) := by
  unfold addTokens
  rw [splitDeclaration_map (Token.kind_relocate r)]
  obtain ⟨_ | word, rest⟩ := splitDeclaration tokens
  · exact draft.addStatement_relocate r line rest
  · dsimp only [Option.map]
    rw [Token.text_relocate]
    cases Label.ofChars? word.text with
    | none => rfl
    | some label =>
      dsimp only
      rw [Token.span_relocate, declare_relocate]
      exact r.result_bind fun declared => declared.addStatement_relocate r line rest

lemma resolveCell_relocate (labels : List (Label × ℕ)) (cell : Cell) :
    resolveCell labels (cell.relocate r) = r.result id (resolveCell labels cell) := by
  cases cell with
  | byte value => rfl
  | reference use =>
    dsimp only [Cell.relocate, resolveCell]
    cases labels.lookup use.label with
    | none => rfl
    | some offset =>
      dsimp only
      split_ifs
      all_goals rfl

lemma mapM_resolveCell_relocate (labels : List (Label × ℕ)) (cells : List Cell) :
    (cells.map (Cell.relocate r)).mapM (resolveCell labels) =
      r.result id (cells.mapM (resolveCell labels)) := by
  induction cells with
  | nil => rfl
  | cons cell cells ih =>
    rw [List.map_cons, List.mapM_cons, List.mapM_cons, resolveCell_relocate, ih]
    exact r.result_bind fun byte => r.result_bind fun bytes => rfl

/-- The same reference fails first, or none does. -/
theorem resolve_relocate :
    (draft.relocate r).resolve = r.result (Program.relocate r) draft.resolve := by
  unfold resolve
  dsimp only [relocate]
  rw [mapM_resolveCell_relocate]
  exact r.result_bind fun code => rfl

end Draft

end Moved

/-! ### Sources of the same shape -/

/-- Every token is found in the same place, and every line where it is. -/
def Relocation.nowhere : Relocation := ⟨id, fun _ => 0⟩

/-- The kinds and the texts of the tokens of a line, without blanks and comments. -/
def SourceLine.shape (line : SourceLine) : List (TokenKind × List Char) :=
  line.tokens.map fun token => (token.kind, token.text)

/-- The kinds and the texts of the tokens on each line of a source. -/
def shapes (source : String) : List (List (TokenKind × List Char)) :=
  (SourceLine.ofSource source.toList).map SourceLine.shape

/-- What an error says, and on which line. -/
def AssemblyError.reason (error : AssemblyError) : AssemblyErrorKind × ℕ := (error.kind, error.line)

section Shapes

open Relocation (nowhere)

variable {line line' : SourceLine} {draft draft' : Draft}

lemma SourceLine.tokens_nowhere (h : line.shape = line'.shape) :
    line.tokens.map (Token.relocate nowhere) = line'.tokens.map (Token.relocate nowhere) := by
  have hplaced := congrArg (List.map fun (kind, text) => (⟨kind, text, 0⟩ : Token)) h
  rwa [shape, shape, List.map_map, List.map_map] at hplaced

/-- One line of the same shape on drafts that differ in places only. -/
lemma Draft.addLine_nowhere (hshape : line.shape = line'.shape)
    (hnumber : line.number = line'.number) (h : draft.relocate nowhere = draft'.relocate nowhere) :
    nowhere.result (relocate nowhere) (draft.addLine line) =
      nowhere.result (relocate nowhere) (draft'.addLine line') := by
  rw [addLine, addLine, ← addTokens_relocate, ← addTokens_relocate, h,
    SourceLine.tokens_nowhere hshape, hnumber]

lemma Draft.foldlM_nowhere {pieces pieces' : List (List Char)} {number offset offset' : ℕ}
    (hshapes : (SourceLine.locate number offset pieces).map SourceLine.shape =
      (SourceLine.locate number offset' pieces').map SourceLine.shape)
    (h : draft.relocate nowhere = draft'.relocate nowhere) :
    nowhere.result (relocate nowhere)
        ((SourceLine.locate number offset pieces).foldlM addLine draft) =
      nowhere.result (relocate nowhere)
        ((SourceLine.locate number offset' pieces').foldlM addLine draft') := by
  induction pieces generalizing pieces' number offset offset' draft draft' with
  | nil =>
    cases pieces' with
    | nil => exact congrArg Except.ok h
    | cons => cases hshapes
  | cons cs pieces ih =>
    cases pieces' with
    | nil => cases hshapes
    | cons cs' pieces' =>
      obtain ⟨hshape, hrest⟩ := List.cons.inj hshapes
      have hline : nowhere.result (relocate nowhere) (draft.addLine ⟨number, offset, cs⟩) =
          nowhere.result (relocate nowhere) (draft'.addLine ⟨number, offset', cs'⟩) :=
        addLine_nowhere hshape rfl h
      rw [SourceLine.locate, SourceLine.locate, List.foldlM_cons, List.foldlM_cons]
      exact nowhere.result_bind_congr hline fun _ _ hnext => ih hrest hnext

lemma Program.relocate_nowhere (program : Program) : program.relocate nowhere = program := by
  simp [relocate, nowhere]

/-- Sources of the same shape are assembled alike but for places. -/
theorem assemble_nowhere {source source' : String} (h : shapes source = shapes source') :
    nowhere.result id (assemble source) = nowhere.result id (assemble source') := by
  refine nowhere.result_bind_congr (Draft.foldlM_nowhere h rfl) fun draft draft' hdraft => ?_
  have hresolve := congrArg Draft.resolve hdraft
  rw [Draft.resolve_relocate, Draft.resolve_relocate] at hresolve
  rwa [funext Program.relocate_nowhere] at hresolve

lemma mapError_reason {α : Type} (x : Except AssemblyError α) :
    x.mapError AssemblyError.reason = (nowhere.result id x).mapError AssemblyError.reason := by
  cases x <;> rfl

end Shapes

/-! ### Letter case of mnemonics -/

/-- One token takes the place of another on a line whose mnemonic stands at a given token. The
letters of the mnemonic may change their case, and nothing else changes. -/
def Token.RecasedBeside (mnemonic? : Option Token) (token token' : Token) : Prop :=
  token'.kind = token.kind ∧
    if mnemonic? = some token then token'.text.map Char.toUpper = token.text.map Char.toUpper
    else token'.text = token.text

/-- A line of the same tokens, but for places and for the letter case of its mnemonic. -/
def SourceLine.Recased (line line' : SourceLine) : Prop :=
  List.Forall₂ (Token.RecasedBeside line.mnemonic?) line.tokens line'.tokens

section Recased

variable {token token' : Token} {tokens tokens' : List Token} {line line' : SourceLine}

/-- A token of the same kind and text. -/
def Token.Same (token token' : Token) : Prop := token'.kind = token.kind ∧ token'.text = token.text

lemma Token.RecasedBeside.same {mnemonic? : Option Token}
    (h : token.RecasedBeside mnemonic? token') (hother : mnemonic? ≠ some token) :
    token.Same token' := by
  obtain ⟨hkind, htext⟩ := h
  rw [if_neg hother] at htext
  exact ⟨hkind, htext⟩

lemma Argument.SpelledBy.same {argument : Argument} (h : argument.SpelledBy token)
    (hsame : token.Same token') : argument.SpelledBy token' := by
  obtain ⟨_, _, _⟩ := token
  obtain ⟨_, _, _⟩ := token'
  obtain ⟨rfl, rfl⟩ := hsame
  exact h

lemma StatementSpelledBy.recase {statement : Option Statement}
    (h : StatementSpelledBy tokens statement) (hnodup : tokens.Nodup)
    (hrecased : List.Forall₂ (Token.RecasedBeside tokens.head?) tokens tokens') :
    StatementSpelledBy tokens' statement := by
  cases statement with
  | none =>
    obtain rfl : tokens = [] := h
    exact List.forall₂_nil_left_iff.mp hrecased
  | some statement =>
    obtain ⟨head, rest, rfl, hword, hname, operands, hseparated, harguments⟩ := h
    obtain ⟨head', rest', ⟨hkind, htext⟩, hrest, rfl⟩ := List.forall₂_cons_left_iff.mp hrecased
    rw [List.head?_cons, if_pos rfl] at htext
    have hsame : List.Forall₂ Token.Same rest rest' :=
      Token.forall₂_behind hnodup hrest fun _ _ => Token.RecasedBeside.same
    obtain ⟨operands', hseparated', hoperands⟩ := hseparated.forall₂ (fun _ _ h => h.1) hsame
    refine ⟨head', rest', rfl, hkind.trans hword, htext.trans hname, operands', hseparated', ?_⟩
    rw [← List.map_id statement.arguments]
    exact Argument.forall₂_map (fun _ _ _ => Argument.SpelledBy.same) harguments hoperands

/-- A line holds the same clause when its mnemonic changes case. -/
theorem SourceLine.Recased.spelledBy (h : line.Recased line') {clause : Clause}
    (hclause : clause.SpelledBy line.tokens) : clause.SpelledBy line'.tokens := by
  obtain ⟨hdeclared, hstatement⟩ := Clause.spelledBy_iff.mp hclause
  obtain ⟨hword, hback⟩ := Draft.splitDeclaration_forall₂ (fun _ _ h => h.1) h
  have hnodup := line.tokens_nodup
  rw [Clause.spelledBy_iff]
  rw [mnemonic?] at hword hback
  rcases hsplit : Draft.splitDeclaration line.tokens with ⟨_ | word, back⟩
  all_goals rw [hsplit] at hdeclared hstatement hword hback
  · rw [Draft.splitDeclaration_none hsplit] at hnodup
    refine ⟨?_, hstatement.recase hnodup hback⟩
    generalize (Draft.splitDeclaration line'.tokens).1 = word' at hword ⊢
    cases hword
    exact hdeclared
  · obtain ⟨colon, htokens, -, -⟩ := Draft.splitDeclaration_some hsplit
    rw [htokens] at hnodup
    obtain ⟨hfresh, htail⟩ := List.nodup_cons.mp hnodup
    refine ⟨?_, hstatement.recase (List.nodup_cons.mp htail).2 hback⟩
    have hother : back.head? ≠ some word := fun heq =>
      hfresh (List.mem_cons_of_mem _ (List.mem_of_head? heq))
    generalize (Draft.splitDeclaration line'.tokens).1 = word' at hword ⊢
    obtain ⟨hbeside⟩ := hword
    rw [← hdeclared]
    exact congrArg some (hbeside.same hother).2

/-- A source whose lines hold the same tokens but for the case of mnemonics is read as before. -/
theorem Reads.recase {source source' : String} {clauses : List Clause} (h : Reads source clauses)
    (hrecased : List.Forall₂ SourceLine.Recased (SourceLine.ofSource source.toList)
      (SourceLine.ofSource source'.toList)) : Reads source' clauses := by
  rw [Reads, List.forall₂_iff_get] at h ⊢
  rw [List.forall₂_iff_get] at hrecased
  refine ⟨hrecased.1.symm.trans h.1, fun i hi hi' => ?_⟩
  have hi'' : i < (SourceLine.ofSource source.toList).length := hrecased.1 ▸ hi
  exact (hrecased.2 i hi'' hi).spelledBy (h.2 i hi'' hi')

end Recased

/-- The text of a line with its mnemonic written in another way, which may depend on the line. -/
def SourceLine.recase (recase : ℕ → List Char → List Char) (line : SourceLine) : List Char :=
  (tokenize line.chars line.offset).flatMap fun token =>
    if line.mnemonic? = some token then recase line.number token.text else token.text

/-- A source where every mnemonic is written in another way. -/
def recaseSource (recase : ℕ → List Char → List Char) (source : String) : String :=
  String.ofList
    (Text.joinLines ((SourceLine.ofSource source.toList).map (SourceLine.recase recase)))

/-- Only letters change, and only in case. -/
def KeepsLetters (recase : ℕ → List Char → List Char) : Prop :=
  ∀ line cs, (recase line cs).map Char.toUpper = cs.map Char.toUpper

namespace SourceLine

open Token

variable {recase : ℕ → List Char → List Char} {line : SourceLine} {clause : Clause} {token : Token}

/-- What stands for a mnemonic on a line of the language is one. -/
lemma names_of_mnemonic? (h : clause.SpelledBy line.tokens) (htoken : line.mnemonic? = some token) :
    token.kind = .word ∧
      ∃ mnemonic : Mnemonic, token.text.map Char.toUpper = mnemonic.name.toList := by
  obtain ⟨-, hstatement⟩ := Clause.spelledBy_iff.mp h
  rw [mnemonic?] at htoken
  generalize (Draft.splitDeclaration line.tokens).2 = back at hstatement htoken
  obtain ⟨declared, _ | statement⟩ := clause
  · obtain rfl : back = [] := hstatement
    cases htoken
  · obtain ⟨head, rest, rfl, hword, hname, -⟩ := hstatement
    obtain rfl := Option.some.inj htoken
    exact ⟨hword, _, hname⟩

lemma boundary_of_isAlphanum {cs : List Char} (hne : cs ≠ [])
    (hcs : ∀ c ∈ cs, c.isAlphanum = true) : boundary cs = some (false, true) := by
  obtain ⟨c, cs, rfl⟩ := List.exists_cons_of_ne_nil hne
  have hc := hcs c List.mem_cons_self
  simp [boundary, not_isBlank_of_startsWord (startsWord_of_isAlphanum hc), continuesWord, hc]

/-- A mnemonic in any letter case fits in its place. -/
lemma replaces_recase (hkeeps : KeepsLetters recase) (h : clause.SpelledBy line.tokens)
    (htoken : line.mnemonic? = some token) : Replaces (recase line.number token.text) token := by
  obtain ⟨hword, mnemonic, hname⟩ := names_of_mnemonic? h htoken
  obtain ⟨hne, hletters⟩ := letters_of_names hname
  obtain ⟨hne', hletters'⟩ := letters_of_names ((hkeeps line.number token.text).trans hname)
  refine ⟨?_, fun rest hlexeme => ?_⟩
  · rw [boundary_of_isAlphanum hne' hletters', boundary_of_isAlphanum hne hletters]
  · rw [hword] at hlexeme ⊢
    generalize recase line.number token.text = text' at hne' hletters' ⊢
    generalize token.text = text at hlexeme
    cases hlexeme with
    | word _ _ stop => exact lexeme_of_isAlphanum hne' hletters' stop

/-- Wherever it stands, the new line differs from the old one in the case of its mnemonic. -/
theorem recased_recase (hkeeps : KeepsLetters recase) (h : clause.SpelledBy line.tokens)
    (number offset : ℕ) : line.Recased ⟨number, offset, line.recase recase⟩ := by
  have hreplaces : ∀ token ∈ tokenize line.chars line.offset, Replaces
      (if line.mnemonic? = some token then recase line.number token.text else token.text)
      token := by
    intro token _
    split_ifs with htoken
    · exact replaces_recase hkeeps h htoken
    · exact token.replaces_text
  have hall : List.Forall₂ (RecasedBeside line.mnemonic?) (tokenize line.chars line.offset)
      (tokenize (line.recase recase) offset) := by
    refine (tokenize_flatMap hreplaces offset).imp fun token token' htoken => ⟨htoken.1, ?_⟩
    rw [htoken.2]
    split_ifs
    · exact hkeeps _ _
    · rfl
  refine List.rel_filter (fun token token' hbeside => ?_) hall
  simp only [isSignificant, hbeside.1]

lemma newline_not_mem_recase (hkeeps : KeepsLetters recase) (h : clause.SpelledBy line.tokens)
    (hline : '\n' ∉ line.chars) : '\n' ∉ line.recase recase := by
  rw [SourceLine.recase, List.mem_flatMap]
  rintro ⟨token, htoken, hmem⟩
  split_ifs at hmem with hmnemonic
  · obtain ⟨-, mnemonic, hname⟩ := names_of_mnemonic? h hmnemonic
    have hletters := (letters_of_names ((hkeeps line.number token.text).trans hname)).2
    exact absurd (hletters _ hmem) (by decide)
  · refine hline ?_
    rw [← flatMap_text_tokenize line.chars line.offset]
    exact List.mem_flatMap.mpr ⟨token, htoken, hmem⟩

end SourceLine

/-- Writing the mnemonics of a source in another case changes nothing else about its lines. -/
theorem Reads.recased {source : String} {clauses : List Clause} (h : Reads source clauses)
    {recase : ℕ → List Char → List Char} (hkeeps : KeepsLetters recase) :
    List.Forall₂ SourceLine.Recased (SourceLine.ofSource source.toList)
      (SourceLine.ofSource (recaseSource recase source).toList) := by
  have hclause : ∀ line ∈ SourceLine.ofSource source.toList,
      ∃ clause : Clause, clause.SpelledBy line.tokens := by
    intro line hline
    obtain ⟨i, hi, rfl⟩ := List.getElem_of_mem hline
    obtain ⟨hlength, hspelled⟩ := List.forall₂_iff_get.mp h
    exact ⟨_, hspelled i hi (hlength ▸ hi)⟩
  rw [recaseSource, String.toList_ofList, SourceLine.ofSource_joinLines_map]
  · refine SourceLine.forall₂_locate_map (fun line hline number offset => ?_) 0 0
    obtain ⟨clause, hspelled⟩ := hclause line hline
    exact SourceLine.recased_recase hkeeps hspelled number offset
  · intro line hline
    obtain ⟨clause, hspelled⟩ := hclause line hline
    exact SourceLine.newline_not_mem_recase hkeeps hspelled

/-- The layout of a source does not matter. If two sources have as many lines as each other and the
lines hold the same kinds and texts of tokens in the same order, blanks and comments aside, then
both are accepted with the same program, or both are rejected with the same error on the same line.
And where a source is accepted, the letter case of its mnemonics may be changed in any way, be it in
the text alone or with the layout, and the program stays the same. -/
theorem spacing_and_case_do_not_matter :
    (∀ source source' : String, shapes source = shapes source' →
      (assemble source).mapError AssemblyError.reason =
        (assemble source').mapError AssemblyError.reason) ∧
    ∀ (source : String) (program : Program), assemble source = .ok program →
      (∀ source' : String, List.Forall₂ SourceLine.Recased (SourceLine.ofSource source.toList)
        (SourceLine.ofSource source'.toList) → assemble source' = .ok program) ∧
      ∀ recase, KeepsLetters recase → assemble (recaseSource recase source) = .ok program := by
  refine ⟨fun source source' h => ?_, fun source program hok => ?_⟩
  · rw [mapError_reason, assemble_nowhere h, ← mapError_reason]
  obtain ⟨clauses, hreads, hwell, rfl⟩ := assemble_ok_iff.mp hok
  have hrecased (source' : String) (h : List.Forall₂ SourceLine.Recased
      (SourceLine.ofSource source.toList) (SourceLine.ofSource source'.toList)) :
      assemble source' = .ok (program clauses) :=
    assemble_ok_iff.mpr ⟨clauses, hreads.recase h, hwell, rfl⟩
  exact ⟨hrecased, fun recase hkeeps => hrecased _ (hreads.recased hkeeps)⟩

/-- Blanks come and go around the tokens of two lines, a semicolon in a text is no comment, and one
letter of a mnemonic gets small. An error stays on its line, although an undefined label comes
before it. -/
theorem spacing_and_case_do_not_matter_sample :
    let program : Program := ⟨[11, 2, 59], [(0, 0)], [(⟨['x'], rfl⟩, 0), (⟨['.', 'y'], rfl⟩, 2)]⟩
    let recase : ℕ → List Char → List Char := fun _ cs => if cs = ['J', 'P'] then ['j', 'P'] else cs
    assemble "x: JP.y ; on\n.y:DB \";\"" = .ok program ∧
      (assemble "\tx :JP\t.y\r\n.y : DB\";\";").mapError AssemblyError.reason = .ok program ∧
      assemble "x: jP.y ; on\n.y:DB \";\"" = .ok program ∧
      KeepsLetters recase ∧
      (assemble "JP a\n\tDB  256 ; b").mapError AssemblyError.reason =
        .error (.outOfRange .number, 1) := by
  intro program recase
  have hok : assemble "x: JP.y ; on\n.y:DB \";\"" = .ok program := by decide +kernel
  have hshapes : shapes "x: JP.y ; on\n.y:DB \";\"" = shapes "\tx :JP\t.y\r\n.y : DB\";\";" := by
    decide +kernel
  have hkeeps : KeepsLetters recase := by
    intro line cs
    unfold recase
    split_ifs with h
    · rw [h]
      rfl
    · rfl
  have hrecased : recaseSource recase "x: JP.y ; on\n.y:DB \";\"" =
      "x: jP.y ; on\n.y:DB \";\"" := by
    decide +kernel
  have herror : assemble "JP a\nDB 256" = .error ⟨.outOfRange .number, 1, ⟨8, 3⟩⟩ := by
    decide +kernel
  obtain ⟨hspacing, hcase⟩ := spacing_and_case_do_not_matter
  refine ⟨hok, ?_, hrecased ▸ (hcase _ _ hok).2 recase hkeeps, hkeeps, ?_⟩
  · rw [← hspacing _ _ hshapes, hok]
    rfl
  · rw [← hspacing "JP a\nDB 256" _ (by decide +kernel), herror]
    rfl

end Octet
