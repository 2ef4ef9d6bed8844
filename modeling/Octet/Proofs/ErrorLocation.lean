import Octet.Proofs.Drafting
import Octet.Proofs.Lines
import Octet.Proofs.OperandLists
import Octet.Proofs.Tokens

/-!
# Where errors are

An error of the assembler is always at a token. While lines are read, it is one of the line at hand.
A reference remembers the token that it was read from, so an error that is found only when labels
are looked up is at a token as well. Tokens know where they stand in the source, and so do errors.
-/
namespace Octet

open Results

/-- What stands under an error, where its kind names it. -/
def AssemblyErrorKind.Quotes (marked : List Char) : AssemblyErrorKind → Prop
  | .invalidInstruction word => marked = word.toList
  | .duplicateLabel label => marked = label.chars
  | .undefinedLabel label | .labelOutOfRange label =>
    marked = label.chars ∨ marked = '[' :: (label.chars ++ [']'])
  | _ => True

/-- What is found only when labels are looked up. -/
def AssemblyErrorKind.OfLookup : AssemblyErrorKind → Prop
  | .undefinedLabel _ | .labelOutOfRange _ => True
  | _ => False

/-- The error is at one of these tokens of a line. -/
def AssemblyError.At (error : AssemblyError) (line : ℕ) (tokens : List Token) : Prop :=
  ∃ token ∈ tokens, error.line = line ∧ error.span = token.span ∧ error.kind.Quotes token.text

/-- The error is at one of these tokens of a line, and it is found as they are read. -/
structure AssemblyError.FoundAt (error : AssemblyError) (line : ℕ) (tokens : List Token) :
    Prop where
  place : error.At line tokens
  kind : ¬ error.kind.OfLookup

/-- The reference was read from one of these tokens of a line, as a word or in brackets. -/
def Reference.At (use : Reference) (line : ℕ) (tokens : List Token) : Prop :=
  ∃ token ∈ tokens, use.line = line ∧ use.span = token.span ∧
    (token.kind = .word ∧ token.text = use.label.chars ∨
      token.kind = .address true ∧ token.inner = use.label.chars)

lemma AssemblyError.FoundAt.mono {error : AssemblyError} {line : ℕ} {tokens more : List Token}
    (h : error.FoundAt line tokens) (hsubset : tokens ⊆ more) : error.FoundAt line more := by
  obtain ⟨⟨token, htoken, hplace⟩, hkind⟩ := h
  exact ⟨⟨token, hsubset htoken, hplace⟩, hkind⟩

lemma Reference.At.mono {use : Reference} {line : ℕ} {tokens more : List Token}
    (h : use.At line tokens) (hsubset : tokens ⊆ more) : use.At line more := by
  obtain ⟨token, htoken, hplace⟩ := h
  exact ⟨token, hsubset htoken, hplace⟩

lemma AssemblyErrorKind.found_at_token {kind : AssemblyErrorKind} {token : Token}
    {tokens : List Token} (line : ℕ) (htoken : token ∈ tokens)
    (hkind : kind.Quotes token.text ∧ ¬ kind.OfLookup) :
    (kind.atToken line token).FoundAt line tokens :=
  ⟨⟨token, htoken, rfl, rfl, hkind.1⟩, hkind.2⟩

/-! ### Operands -/

namespace Operand

lemma mem_of_splitTokens_error {tokens : List Token} {token : Token}
    (h : splitTokens tokens = .error token) : token ∈ tokens := by
  obtain ⟨before, after, rfl, _⟩ := splitTokens_error_iff.mp h
  simp

lemma subset_of_splitTokens {tokens operands : List Token}
    (h : splitTokens tokens = .ok operands) : operands ⊆ tokens := by
  rcases splitTokens_ok_iff.mp h with ⟨_, rfl⟩ | ⟨hseparated, -⟩
  · exact List.nil_subset _
  · clear h
    induction hseparated with
    | one => exact List.Subset.refl _
    | more _ _ ih =>
      exact List.cons_subset_cons _ (List.Subset.trans ih (List.subset_cons_self _ _))

/-- Errors inside an operand name nothing, and none of them comes from a lookup. -/
lemma kind_of_ofToken_error {line : ℕ} {token : Token} {kind : AssemblyErrorKind}
    (h : ofToken line token = .error kind) (marked : List Char) :
    kind.Quotes marked ∧ ¬ kind.OfLookup := by
  rcases ofToken_error h with hliteral | ⟨rfl, _⟩
  · cases kind <;> first | exact ⟨trivial, id⟩ | exact hliteral.elim
  · exact ⟨trivial, id⟩

/-- A reference in an operand is at the operand's token. -/
lemma reference_at_of_ofToken {line : ℕ} {token : Token} {operand : Operand} {use : Reference}
    (h : ofToken line token = .ok operand)
    (huse : operand = .number (.reference use) ∨ operand = .address (.reference use)) :
    use.At line [token] := by
  have hterm : ∀ term : Term, term.cell line token.span = .reference use →
      term = .label use.label ∧ use.line = line ∧ use.span = token.span := by
    intro term hcell
    cases term with
    | byte => cases hcell
    | label => cases hcell; exact ⟨rfl, rfl, rfl⟩
  obtain ⟨argument, hspelled, rfl⟩ := ofToken_ok_iff.mp h
  cases argument with
  | number term =>
    obtain ⟨rfl, hline, hspan⟩ := hterm term (by simpa [Argument.operand] using huse)
    rcases hspelled with ⟨hkind, hchars⟩ | ⟨_, _, _, _, _, hbyte⟩
    · exact ⟨token, List.mem_singleton_self _, hline, hspan, .inl ⟨hkind, hchars.symm⟩⟩
    · cases hbyte
  | address term =>
    obtain ⟨rfl, hline, hspan⟩ := hterm term (by simpa [Argument.operand] using huse)
    obtain ⟨hkind, hchars⟩ := hspelled
    exact ⟨token, List.mem_singleton_self _, hline, hspan, .inr ⟨hkind, hchars.symm⟩⟩
  | text => simp [Argument.operand] at huse

end Operand

/-! ### Statements -/

/-- The references of an emission are those of its operands. -/
lemma Mnemonic.operand_of_encode? {mnemonic : Mnemonic} {operands : List Operand}
    {emission : Emission} {use : Reference} (h : mnemonic.encode? operands = some emission)
    (huse : .reference use ∈ emission.cells) :
    ∃ operand ∈ operands, operand = .number (.reference use) ∨
      operand = .address (.reference use) := by
  unfold Mnemonic.encode? at h
  split at h <;> cases h <;> simp [Emission.cells] at huse ⊢ <;> tauto

namespace Emission

variable {line : ℕ} {head : Token} {rest : List Token}

theorem error_found_of_ofOperands {mnemonic : Mnemonic} {operands : List Token}
    {error : AssemblyError} (h : ofOperands line head mnemonic operands = .error error) :
    error.FoundAt line (head :: operands) := by
  rcases ofOperands_error_cases h with
    ⟨extra, hextra, rfl⟩ | ⟨token, htoken, kind, hkind, rfl⟩ | rfl
  · exact AssemblyErrorKind.found_at_token line (List.mem_cons_of_mem _ hextra) ⟨trivial, id⟩
  · exact AssemblyErrorKind.found_at_token line (List.mem_cons_of_mem _ htoken)
      (Operand.kind_of_ofToken_error hkind _)
  · exact AssemblyErrorKind.found_at_token line List.mem_cons_self ⟨trivial, id⟩

theorem error_found_of_ofTokens {error : AssemblyError}
    (h : ofTokens line head rest = .error error) :
    error.FoundAt line (head :: rest) := by
  unfold ofTokens at h
  split_ifs at h with hhead
  · cases h
    exact AssemblyErrorKind.found_at_token line List.mem_cons_self ⟨trivial, id⟩
  · split at h
    · next token hsplit =>
      cases h
      have hmem := Operand.mem_of_splitTokens_error hsplit
      exact AssemblyErrorKind.found_at_token line (List.mem_cons_of_mem _ hmem) ⟨trivial, id⟩
    · next operands hsplit =>
      split at h
      · cases h
        exact AssemblyErrorKind.found_at_token line List.mem_cons_self
          ⟨String.toList_ofList.symm, id⟩
      · have hsubset := Operand.subset_of_splitTokens hsplit
        exact (error_found_of_ofOperands h).mono (List.cons_subset_cons _ hsubset)

theorem reference_at_of_ofTokens {emission : Emission} (h : ofTokens line head rest = .ok emission)
    {use : Reference} (huse : .reference use ∈ emission.cells) : use.At line (head :: rest) := by
  unfold ofTokens at h
  split_ifs at h
  split at h
  · cases h
  next operands hsplit =>
  split at h
  · cases h
  next mnemonic _ =>
  unfold ofOperands at h
  split at h
  · cases h
  dsimp only at h
  split_ifs at h
  obtain ⟨values, hvalues, hencode⟩ := bind_ok_iff.mp h
  cases hemission : mnemonic.encode? values with
  | none => rw [hemission] at hencode; cases hencode
  | some other =>
    rw [hemission] at hencode
    obtain rfl := Except.ok.inj hencode
    obtain ⟨operand, hoperand, hcell⟩ := Mnemonic.operand_of_encode? hemission huse
    obtain ⟨token, htoken, hread⟩ := exists_of_mem_mapM_ok hvalues hoperand
    have hplace := Operand.reference_at_of_ofToken (mapError_ok_iff.mp hread) hcell
    have hmem : token ∈ head :: rest :=
      List.mem_cons_of_mem _ (Operand.subset_of_splitTokens hsplit htoken)
    exact hplace.mono (by simpa using hmem)

end Emission

/-! ### Drafts -/

namespace Draft

variable {draft draft' : Draft} {line : ℕ} {tokens : List Token}

lemma error_found_of_addStatement {error : AssemblyError}
    (h : draft.addStatement line tokens = .error error) : error.FoundAt line tokens := by
  cases tokens with
  | nil => cases h
  | cons head rest =>
    rcases bind_error_iff.mp h with hemission | ⟨emission, _, hfits⟩
    · exact Emission.error_found_of_ofTokens hemission
    · dsimp only at hfits
      split_ifs at hfits
      cases hfits
      exact AssemblyErrorKind.found_at_token line List.mem_cons_self ⟨trivial, id⟩

/-- An error of a line is found at one of its tokens. -/
theorem error_found_of_addTokens {error : AssemblyError}
    (h : draft.addTokens line tokens = .error error) : error.FoundAt line tokens := by
  unfold addTokens at h
  split at h
  · next rest hsplit =>
    rw [splitDeclaration_none hsplit]
    exact error_found_of_addStatement h
  · next word rest hsplit =>
    obtain ⟨colon, rfl, _⟩ := splitDeclaration_some hsplit
    split at h
    · cases h
      exact AssemblyErrorKind.found_at_token line List.mem_cons_self ⟨trivial, id⟩
    · next label hlabel =>
      rcases bind_error_iff.mp h with hdeclare | ⟨declared, _, hstatement⟩
      · unfold declare at hdeclare
        split_ifs at hdeclare
        cases hdeclare
        have hquotes := (Label.ofChars?_eq_some_iff.mp hlabel).symm
        exact ⟨⟨word, List.mem_cons_self, rfl, rfl, hquotes⟩, id⟩
      · exact (error_found_of_addStatement hstatement).mono
          (List.subset_cons_of_subset _ (List.subset_cons_self _ _))

lemma reference_at_of_addStatement (h : draft.addStatement line tokens = .ok draft')
    {use : Reference} (huse : .reference use ∈ draft'.cells) :
    .reference use ∈ draft.cells ∨ use.At line tokens := by
  rcases addStatement_cases h with ⟨_, rfl⟩ | ⟨head, rest, emission, rfl, hemission, rfl, _⟩
  · exact .inl huse
  · exact (List.mem_append.mp huse).imp_right (Emission.reference_at_of_ofTokens hemission)

/-- A line adds only references that were read from its tokens. -/
theorem reference_at_of_addTokens (h : draft.addTokens line tokens = .ok draft')
    {use : Reference} (huse : .reference use ∈ draft'.cells) :
    .reference use ∈ draft.cells ∨ use.At line tokens := by
  rcases addTokens_cases h with
    ⟨_, hstatement⟩ | ⟨word, colon, rest, label, rfl, _, _, _, hstatement⟩
  · exact reference_at_of_addStatement hstatement huse
  · exact (reference_at_of_addStatement hstatement huse).imp_right
      fun hat => hat.mono (List.subset_cons_of_subset _ (List.subset_cons_self _ _))

theorem reference_at_of_foldlM {lines : List SourceLine}
    (h : lines.foldlM addLine draft = .ok draft') {use : Reference}
    (huse : .reference use ∈ draft'.cells) :
    .reference use ∈ draft.cells ∨ ∃ line ∈ lines, use.At line.number line.tokens := by
  induction lines generalizing draft with
  | nil =>
    obtain rfl := Except.ok.inj h
    exact .inl huse
  | cons line lines ih =>
    rw [List.foldlM_cons] at h
    obtain ⟨middle, hmiddle, hrest⟩ := bind_ok_iff.mp h
    rcases ih hrest with hmem | ⟨later, hlater, hat⟩
    · exact (reference_at_of_addTokens hmiddle hmem).imp_right
        fun hat => ⟨line, List.mem_cons_self, hat⟩
    · exact .inr ⟨later, List.mem_cons_of_mem _ hlater, hat⟩

/-- The error of a reference that cannot be filled in is at the reference. -/
lemma error_of_resolve {error : AssemblyError} (h : draft.resolve = .error error) :
    ∃ use, .reference use ∈ draft.cells ∧ error.line = use.line ∧ error.span = use.span ∧
      (error.kind = .undefinedLabel use.label ∨ error.kind = .labelOutOfRange use.label) := by
  rcases bind_error_iff.mp h with hcells | ⟨_, _, hpure⟩
  · obtain ⟨cell, hcell, hfail⟩ := exists_of_mapM_error hcells
    cases cell with
    | byte => cases hfail
    | reference use =>
      unfold resolveCell at hfail
      dsimp only at hfail
      split at hfail
      · cases hfail
        exact ⟨use, hcell, rfl, rfl, .inl rfl⟩
      · split_ifs at hfail
        cases hfail
        exact ⟨use, hcell, rfl, rfl, .inr rfl⟩
  · cases hpure

end Draft

/-! ### Sources -/

open Text

/-- The span marks a stretch of whole characters of a source, and these characters stand in front of
it. -/
def Span.Marks (span : Span) (source before marked : List Char) : Prop :=
  before ++ marked <+: source ∧ byteLength before = span.offset ∧ byteLength marked = span.length

lemma SourceLine.mem_tokenize_of_mem_tokens {line : SourceLine} {token : Token}
    (h : token ∈ line.tokens) : token ∈ tokenize line.chars line.offset :=
  List.mem_of_mem_filter h

/-- No two tokens of a line have one span. -/
lemma eq_of_span_eq {line : List Char} {offset : ℕ} {a b : Token} (ha : a ∈ tokenize line offset)
    (hb : b ∈ tokenize line offset) (h : a.span = b.span) : a = b := by
  have hnodup : ((tokenize line offset).map Token.offset).Nodup :=
    List.pairwise_map.mpr ((tokenize_pairwise line offset).imp Nat.ne_of_lt)
  exact List.inj_on_of_nodup_map hnodup ha hb (congrArg Span.offset h)

/-- A token of a line marks its own text in the source. -/
lemma SourceLine.exists_marks {source : List Char} {line : SourceLine} {token : Token}
    (hline : line ∈ ofSource source) (htoken : token ∈ tokenize line.chars line.offset) :
    ∃ before, token.span.Marks source before token.text ∧ before.count '\n' = line.number := by
  obtain ⟨front, back, hsource, hnumber, hoffset⟩ := exists_split_of_mem_ofSource hline
  obtain ⟨before, after, hchars, htoffset, _⟩ := exists_split_of_mem_tokenize htoken
  have hnewline : '\n' ∉ line.chars :=
    newline_not_mem_of_mem_splitLines (chars_mem_of_mem_locate hline)
  have hbefore : before.count '\n' = 0 := by
    rw [List.count_eq_zero]
    exact fun hmem => hnewline (by rw [hchars]; simp [hmem])
  refine ⟨front ++ before, ⟨⟨after ++ back, ?_⟩, ?_, rfl⟩, ?_⟩
  · rw [hsource, hchars]
    simp
  · rw [byteLength_append, ← hoffset, ← htoffset]
    rfl
  · rw [List.count_append, hbefore, hnumber, Nat.add_zero]

/-- Every error of the assembler is at a token of the line that it names. -/
lemma exists_line_of_assemble_error {source : String} {error : AssemblyError}
    (h : assemble source = .error error) :
    ∃ line ∈ SourceLine.ofSource source.toList, error.At line.number line.tokens := by
  rcases bind_error_iff.mp h with hdraft | ⟨draft, hdraft, hresolve⟩
  · obtain ⟨before, line, after, _, hlines, _, hfail⟩ := foldlM_error_iff.mp hdraft
    exact ⟨line, by simp [hlines], (Draft.error_found_of_addTokens hfail).place⟩
  · obtain ⟨use, huse, hnumber, hspan, hkind⟩ := Draft.error_of_resolve hresolve
    rcases Draft.reference_at_of_foldlM hdraft huse with hnone | ⟨line, hline, hat⟩
    · cases hnone
    · obtain ⟨token, htoken, huseLine, huseSpan, htext⟩ := hat
      refine ⟨line, hline, token, htoken, hnumber.trans huseLine, hspan.trans huseSpan, ?_⟩
      have hquoted : token.text = use.label.chars ∨
          token.text = '[' :: (use.label.chars ++ [']']) := by
        rcases htext with ⟨_, hword⟩ | ⟨hkind, hinner⟩
        · exact .inl hword
        · rw [← hinner]
          exact .inr (text_eq_of_address (SourceLine.mem_tokenize_of_mem_tokens htoken) hkind)
      rcases hkind with hkind | hkind <;> rw [hkind] <;> exact hquoted

/-- The error of a source that does not assemble marks exactly one token of its line, a stretch of
whole characters that is not empty. Its line is the number of line feeds in front, and a name that
it quotes is what stands there. -/
theorem assemble_error_marks_token {source : String} {error : AssemblyError}
    (h : assemble source = .error error) :
    0 < error.span.length ∧ ∃ before marked : List Char,
      error.span.Marks source.toList before marked ∧ error.line = before.count '\n' ∧
        error.kind.Quotes marked ∧
        ∃ line ∈ SourceLine.ofSource source.toList, line.number = error.line ∧
          ∃! token, token ∈ tokenize line.chars line.offset ∧ token.span = error.span := by
  obtain ⟨line, hline, token, htokens, hnumber, hspan, hquotes⟩ := exists_line_of_assemble_error h
  have htoken := SourceLine.mem_tokenize_of_mem_tokens htokens
  obtain ⟨before, hmarks, hcount⟩ := SourceLine.exists_marks hline htoken
  have hlength : 0 < error.span.length := by
    rw [hspan]
    exact byteLength_pos (text_ne_nil_of_mem_tokenize htoken)
  refine ⟨hlength, before, token.text, hspan ▸ hmarks, hnumber.trans hcount.symm, hquotes, line,
    hline, hnumber.symm, token, ⟨htoken, hspan.symm⟩, ?_⟩
  rintro other ⟨hother, hsame⟩
  exact eq_of_span_eq hother htoken (hsame.trans hspan)

/-- A reference in brackets, behind wide characters, a blank line and a carriage return. -/
theorem assemble_error_marks_token_sample :
    let source := "; größe\r\n\nx: JP x\r\n DB 'é'\nCP [Ende], 1"
    let error : AssemblyError := ⟨.undefinedLabel ⟨['E', 'n', 'd', 'e'], rfl⟩, 4, ⟨33, 6⟩⟩
    assemble source = .error error ∧ 0 < error.span.length ∧ ∃ before marked : List Char,
      error.span.Marks source.toList before marked ∧ error.line = before.count '\n' ∧
        error.kind.Quotes marked ∧
        ∃ line ∈ SourceLine.ofSource source.toList, line.number = error.line ∧
          ∃! token, token ∈ tokenize line.chars line.offset ∧ token.span = error.span := by
  have h : assemble "; größe\r\n\nx: JP x\r\n DB 'é'\nCP [Ende], 1" =
      .error ⟨.undefinedLabel ⟨['E', 'n', 'd', 'e'], rfl⟩, 4, ⟨33, 6⟩⟩ := by decide +kernel
  exact ⟨h, assemble_error_marks_token h⟩

end Octet
