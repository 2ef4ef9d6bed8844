import Octet.Proofs.Spacing

/-!
# Carriage returns

A carriage return in front of a line feed tells nothing. Mostly it is a blank, but it gets into a
comment and into a quotation or an address that is not closed. Comments are dropped, and the others
are refused for their kind before anybody looks at their text. What is compared here is therefore
the kind of every token, and its text only where the text can be read.
-/
namespace Octet

open Results Text Token Relocation

/-! ### Texts that nobody reads -/

/-- What is read of a token: its kind, and its text if it can be an operand. -/
def Token.gist (token : Token) : Token :=
  if Operand.isToken token then token else { token with text := [] }

/-- What is read of a token wherever it stands. -/
def Token.bare (token : Token) : Token := token.gist.relocate nowhere

section Gist

variable {token token' : Token}

@[simp] theorem Token.kind_gist (token : Token) : token.gist.kind = token.kind := by
  unfold gist
  split_ifs <;> rfl

lemma Token.gist_of_isToken (h : Operand.isToken token = true) : token.gist = token := if_pos h

lemma Token.gist_of_word (h : token.kind = .word) : token.gist = token :=
  gist_of_isToken (by simp [Operand.isToken, h])

/-- A token that is refused is refused for the same reason. -/
@[simp] theorem AssemblyErrorKind.reason_atToken (kind : AssemblyErrorKind) (line : ℕ)
    (token : Token) : (kind.atToken line token).reason = (kind, line) := rfl

/-- Operands that are read at all are read in full. -/
lemma Operand.map_gist_of_splitTokens {tokens operands : List Token}
    (h : splitTokens tokens = .ok operands) : operands.map Token.gist = operands := by
  obtain ⟨-, rfl⟩ | ⟨-, hoperands⟩ := splitTokens_ok_iff.mp h
  · rfl
  · exact (List.map_congr_left fun token htoken => gist_of_isToken (hoperands token htoken)).trans
      (List.map_id _)

lemma Emission.ofTokens_gist (line : ℕ) (head : Token) (rest : List Token) :
    view id AssemblyError.reason (ofTokens line head.gist (rest.map Token.gist)) =
      view id AssemblyError.reason (ofTokens line head rest) := by
  unfold ofTokens
  rw [Operand.splitTokens_map kind_gist, kind_gist]
  by_cases hword : head.kind = .word
  · rw [gist_of_word hword]
    split_ifs
    · rfl
    · cases hsplit : Operand.splitTokens rest with
      | error token => rfl
      | ok operands =>
        simp only [Except.map, Except.mapError, Operand.map_gist_of_splitTokens hsplit]
  · simp [hword, view, Except.map, Except.mapError]

lemma Draft.addStatement_gist (draft : Draft) (line : ℕ) (tokens : List Token) :
    view id AssemblyError.reason (draft.addStatement line (tokens.map Token.gist)) =
      view id AssemblyError.reason (draft.addStatement line tokens) := by
  cases tokens with
  | nil => rfl
  | cons head rest =>
    refine view_bind_congr (Emission.ofTokens_gist line head rest) fun emission emission' heq => ?_
    obtain rfl : emission = emission' := heq
    dsimp only
    split_ifs <;> rfl

/-- A line adds what can be read of it. -/
theorem Draft.addTokens_gist (draft : Draft) (line : ℕ) (tokens : List Token) :
    view id AssemblyError.reason (draft.addTokens line (tokens.map Token.gist)) =
      view id AssemblyError.reason (draft.addTokens line tokens) := by
  unfold addTokens
  rw [splitDeclaration_map kind_gist]
  rcases hsplit : splitDeclaration tokens with ⟨_ | word, rest⟩
  · exact draft.addStatement_gist line rest
  · obtain ⟨colon, -, hword, -⟩ := splitDeclaration_some hsplit
    dsimp only [Option.map]
    rw [gist_of_word hword]
    cases Label.ofChars? word.text with
    | none => rfl
    | some label =>
      have hview := Eq.refl (view id AssemblyError.reason (draft.declare label line word.span))
      refine view_bind_congr hview fun declared declared' heq => ?_
      obtain rfl : declared = declared' := heq
      exact declared.addStatement_gist line rest

/-- Of two tokens of the same kind the same is read if that kind has no text that is read, or if the
texts are the same. -/
lemma Token.bare_congr (hkind : token.kind = token'.kind)
    (htext : Operand.isToken token = true → token.text = token'.text) :
    token.bare = token'.bare := by
  have htoken : Operand.isToken token = Operand.isToken token' := by
    rw [Operand.isToken, hkind, Operand.isToken]
  unfold bare gist
  by_cases h : Operand.isToken token = true
  · rw [if_pos h, if_pos (htoken ▸ h)]
    simp [relocate, nowhere, hkind, htext h]
  · rw [if_neg h, if_neg (htoken ▸ h)]
    simp [relocate, nowhere, hkind]

end Gist

/-! ### Lines of which the same is read -/

/-- Two lines of the same number of which the same is read. -/
structure SourceLine.Alike (line line' : SourceLine) : Prop where
  number : line.number = line'.number
  tokens : line.tokens.map Token.bare = line'.tokens.map Token.bare

section Alike

variable {α : Type}

/-- Who does not see places does not see that something has moved. -/
lemma view_result (f : α → α) (x : Except AssemblyError α) :
    view id AssemblyError.reason (nowhere.result f x) = view f AssemblyError.reason x := by
  cases x <;> rfl

/-- What one sees of a result without its value is seen with its value, too. -/
lemma view_eq_map (f : α → α) (x : Except AssemblyError α) :
    view f AssemblyError.reason x = (view id AssemblyError.reason x).map f := by
  cases x <;> rfl

/-- What a line adds is told from what is read of it. -/
lemma Draft.view_addLine (draft : Draft) (line : SourceLine) :
    view (relocate nowhere) AssemblyError.reason (draft.addLine line) =
      view id AssemblyError.reason
        ((draft.relocate nowhere).addTokens line.number (line.tokens.map Token.bare)) := by
  have hbare : line.tokens.map Token.bare =
      (line.tokens.map Token.gist).map (Token.relocate nowhere) := by
    rw [List.map_map]
    rfl
  have hmoved := draft.addTokens_relocate nowhere line.number (line.tokens.map Token.gist)
  rw [← hbare] at hmoved
  calc view (relocate nowhere) AssemblyError.reason (draft.addLine line)
      = view (relocate nowhere) AssemblyError.reason
          (draft.addTokens line.number (line.tokens.map Token.gist)) := by
        rw [view_eq_map, view_eq_map _ (draft.addTokens _ _), addTokens_gist, addLine]
    _ = view id AssemblyError.reason
          ((draft.relocate nowhere).addTokens line.number (line.tokens.map Token.bare)) := by
        rw [← view_result, ← hmoved]
        rfl

/-- Sources whose lines are alike are assembled alike. -/
theorem assemble_of_alike {source source' : String} (h : List.Forall₂ SourceLine.Alike
      (SourceLine.ofSource source.toList) (SourceLine.ofSource source'.toList)) :
    (assemble source).mapError AssemblyError.reason =
      (assemble source').mapError AssemblyError.reason := by
  have hview (x : Except AssemblyError Program) :
      x.mapError AssemblyError.reason = view id AssemblyError.reason x := by
    cases x <;> rfl
  have hstep (line line' : SourceLine) (draft draft' : Draft) (halike : line.Alike line')
      (hdraft : draft.relocate nowhere = draft'.relocate nowhere) :
      view (Draft.relocate nowhere) AssemblyError.reason (draft.addLine line) =
        view (Draft.relocate nowhere) AssemblyError.reason (draft'.addLine line') := by
    rw [Draft.view_addLine, Draft.view_addLine, halike.number, halike.tokens, hdraft]
  rw [hview, hview]
  apply view_bind_congr (view_foldlM_congr hstep h rfl)
  intro draft draft' hdraft
  have hresolve := congrArg Draft.resolve hdraft
  rw [Draft.resolve_relocate, Draft.resolve_relocate] at hresolve
  have hseen := congrArg (view id AssemblyError.reason) hresolve
  rwa [view_result, view_result, funext Program.relocate_nowhere] at hseen

end Alike

/-! ### Returns at the end of a line -/

section Returns

variable {kind : TokenKind} {cs rest : List Char}

/-- A carriage return comes behind the last token of a line, or it gets into that token, whose text
nobody reads then. -/
lemma Token.Lexeme.append_return (h : Lexeme kind cs []) : Lexeme kind cs ['\r'] ∨
    Lexeme kind (cs ++ ['\r']) [] ∧
      ∀ text offset, Operand.isToken ⟨kind, text, offset⟩ = false := by
  cases h with
  | comment body => exact .inr ⟨.comment (body ++ ['\r']), fun _ _ => rfl⟩
  | blank first more =>
    refine .inr ⟨.blank first (fun d hd => ?_) nofun, fun _ _ => rfl⟩
    obtain hd | hd := List.mem_append.mp hd
    · exact more d hd
    · rw [List.mem_singleton.mp hd]
      rfl
  | openAddress hopen => exact .inr ⟨.openAddress (by simpa using hopen), fun _ _ => rfl⟩
  | @openText inside hopen =>
    refine .inr ⟨.openText ?_, fun _ _ => rfl⟩
    cases inside <;> simp_all
  | @openCharacter inside hopen =>
    refine .inr ⟨.openCharacter ?_, fun _ _ => rfl⟩
    cases inside <;> simp_all
  | colon => exact .inl (.colon _)
  | comma => exact .inl (.comma _)
  | address _ hopen => exact .inl (.address _ hopen)
  | text c _ hopen => exact .inl (.text c _ hopen)
  | character c _ hopen => exact .inl (.character c _ hopen)
  | word first more => exact .inl (.word first more (by rintro _ ⟨⟩; rfl))
  | unknown _ nothing => exact .inl (.unknown _ nothing)

lemma Token.Lexeme.append_of_ne_nil (h : Lexeme kind cs rest) (hrest : rest ≠ []) :
    Lexeme kind cs (rest ++ ['\r']) := by
  apply h.of_boundary
  obtain ⟨c, rest, rfl⟩ := List.exists_cons_of_ne_nil hrest
  rfl

lemma bare_significant (h : Lexeme kind cs rest) (offset : ℕ) :
    (significant (cs ++ rest) offset).map Token.bare =
      ([⟨kind, cs, offset⟩].filter Token.isSignificant).map Token.bare ++
        (significant rest (offset + byteLength cs)).map Token.bare := by
  rw [significant, tokenize_of_lexeme h, ← List.singleton_append, List.filter_append,
    List.map_append, significant]

/-- A token where nothing of it is read but its kind, or where its text stays. -/
lemma bare_filter {text text' : List Char} (offset offset' : ℕ)
    (h : Operand.isToken ⟨kind, text, offset⟩ = true → text = text') :
    ([⟨kind, text, offset⟩].filter Token.isSignificant).map Token.bare =
      ([⟨kind, text', offset'⟩].filter Token.isSignificant).map Token.bare := by
  have hbare : Token.bare ⟨kind, text, offset⟩ = Token.bare ⟨kind, text', offset'⟩ :=
    bare_congr rfl h
  by_cases hkind : kind = .blank ∨ kind = .comment
  · obtain rfl | rfl := hkind <;> simp [isSignificant]
  · rw [not_or] at hkind
    rw [List.filter_cons_of_pos (by simp [isSignificant, hkind]),
      List.filter_cons_of_pos (by simp [isSignificant, hkind])]
    simp [hbare]

/-- The same is read of a line with a carriage return behind it. -/
theorem significant_return (line : List Char) (offset offset' : ℕ) :
    (significant line offset).map Token.bare =
      (significant (line ++ ['\r']) offset').map Token.bare := by
  have hnil (offset : ℕ) : (significant [] offset).map Token.bare = [] := by
    simp [significant, tokenize]
  have hreturn (offset : ℕ) : (significant ['\r'] offset).map Token.bare = [] := by
    rw [significant_eq_nil (by simp [Blanks, isBlank]), List.map_nil]
  have hsegments := segments_tokenize line offset
  generalize tokenize line offset = tokens at hsegments
  induction hsegments generalizing offset' with
  | nil offset => rw [List.nil_append, hnil, hreturn]
  | @cons kind text rest offset _ hfirst _ ih =>
    rw [bare_significant hfirst, List.append_assoc]
    by_cases hrest : rest = []
    · subst hrest
      rw [List.nil_append, hnil]
      obtain hbehind | ⟨hinside, hunread⟩ := hfirst.append_return
      · rw [bare_significant hbehind, hreturn, bare_filter _ _ fun _ => rfl]
      · have hlast := bare_significant hinside offset'
        rw [List.append_nil, hnil] at hlast
        rw [hlast, bare_filter _ _ fun h => absurd h (by simp [hunread])]
    · rw [bare_significant (hfirst.append_of_ne_nil hrest), bare_filter _ offset' fun _ => rfl]
      exact congrArg _ (ih _)

end Returns

/-! ### Line ends -/

/-- A text with a carriage return in front of every line feed. -/
def Text.withReturns (cs : List Char) : List Char :=
  cs.flatMap fun c => if c = '\n' then ['\r', '\n'] else [c]

/-- The second line is the first one, or has a carriage return behind it. -/
def Text.MayReturn (line line' : List Char) : Prop := line' = line ∨ line' = line ++ ['\r']

section LineEnds

variable {cs cs' : List Char} {lines lines' : List (List Char)}

lemma Text.MayReturn.cons (h : MayReturn cs cs') (c : Char) : MayReturn (c :: cs) (c :: cs') := by
  obtain rfl | rfl := h
  · exact .inl rfl
  · exact .inr rfl

/-- The lines of the text are the old ones, with returns. -/
lemma Text.splitLines_withReturns (cs : List Char) :
    List.Forall₂ MayReturn (splitLines cs) (splitLines (withReturns cs)) := by
  induction cs with
  | nil => exact .cons (.inl rfl) .nil
  | cons c cs ih =>
    rw [withReturns, List.flatMap_cons, ← withReturns]
    by_cases hc : c = '\n'
    · subst hc
      exact .cons (.inr rfl) ih
    · rw [if_neg hc, List.singleton_append, splitLines_cons hc, splitLines_cons hc]
      obtain ⟨line, lines, hlines⟩ := List.exists_cons_of_ne_nil (splitLines_ne_nil cs)
      rw [hlines] at ih ⊢
      obtain ⟨line', lines', hline, hrest, heq⟩ := List.forall₂_cons_left_iff.mp ih
      rw [heq]
      exact .cons (hline.cons c) hrest

lemma SourceLine.alike_of_mayReturn (h : MayReturn cs cs') (number offset offset' : ℕ) :
    Alike ⟨number, offset, cs⟩ ⟨number, offset', cs'⟩ := by
  refine ⟨rfl, ?_⟩
  obtain rfl | rfl := h
  · exact (significant_return cs' offset 0).trans (significant_return cs' offset' 0).symm
  · exact significant_return cs offset offset'

lemma SourceLine.forall₂_locate (h : List.Forall₂ MayReturn lines lines')
    (number offset offset' : ℕ) :
    List.Forall₂ Alike (locate number offset lines) (locate number offset' lines') := by
  induction h generalizing number offset offset' with
  | nil => exact .nil
  | cons hline _ ih => exact .cons (alike_of_mayReturn hline number offset offset') (ih _ _ _)

end LineEnds

/-- Each line of a source may end in a carriage return or not. -/
theorem assemble_of_mayReturn {source source' : String}
    (h : List.Forall₂ MayReturn (splitLines source.toList) (splitLines source'.toList)) :
    (assemble source).mapError AssemblyError.reason =
      (assemble source').mapError AssemblyError.reason :=
  assemble_of_alike (SourceLine.forall₂_locate h 0 0 0)

/-- Both ways to end a line are the same. If a carriage return is put in front of every line feed of
a source, whatever the lines hold, then the source is accepted as before, with the same code, the
same table of lines and the same labels, or it is refused as before, with the same kind of error on
the same line. -/
theorem carriage_returns_do_not_matter (source : String) :
    (assemble (String.ofList (withReturns source.toList))).mapError AssemblyError.reason =
      (assemble source).mapError AssemblyError.reason := by
  refine (assemble_of_mayReturn ?_).symm
  rw [String.toList_ofList]
  exact splitLines_withReturns source.toList

/-- The return gets into a lone quote and makes it longer. It is still a quote without an end. -/
example : (assemble "DB \"a\" ; b\n\tDB '\nDB 1").mapError AssemblyError.reason =
      .error (.malformed, 1) ∧
    (assemble "DB \"a\" ; b\r\n\tDB '\r\nDB 1").mapError AssemblyError.reason =
      .error (.malformed, 1) := by
  decide +kernel

end Octet
