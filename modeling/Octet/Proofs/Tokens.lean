import Octet.Source.Token
import Mathlib.Data.List.TakeWhile
import Mathlib.Tactic

/-!
# Lexemes

How each kind of token is written, and what may follow it. A line is cut into lexemes, and a text
that begins with a lexeme is cut right behind it. Where a token stands matters to its offset only.
-/
namespace Octet

namespace Token

/-- No token but one of its own starts with such a character. -/
def StartsNothing (c : Char) : Prop :=
  c ∉ [';', ':', ',', '[', '"', '\''] ∧ isBlank c = false ∧ startsWord c = false

/-- A token of this kind can be written so where the second text follows it. -/
inductive Lexeme : TokenKind → List Char → List Char → Prop
  | comment (body : List Char) : Lexeme .comment (';' :: body) []
  | blank {c : Char} {body rest : List Char} (first : isBlank c = true)
      (more : ∀ d ∈ body, isBlank d = true) (stop : ∀ d ∈ rest.head?, isBlank d = false) :
      Lexeme .blank (c :: body) rest
  | colon (rest : List Char) : Lexeme .colon [':'] rest
  | comma (rest : List Char) : Lexeme .comma [','] rest
  | address {inside : List Char} (rest : List Char) (open_ : ']' ∉ inside) :
      Lexeme (.address true) ('[' :: (inside ++ [']'])) rest
  | openAddress {inside : List Char} (open_ : ']' ∉ inside) :
      Lexeme (.address false) ('[' :: inside) []
  | text (c : Char) {inside : List Char} (rest : List Char) (open_ : '"' ∉ inside) :
      Lexeme (.text true) ('"' :: c :: (inside ++ ['"'])) rest
  | openText {inside : List Char} (open_ : '"' ∉ inside.tail) :
      Lexeme (.text false) ('"' :: inside) []
  | character (c : Char) {inside : List Char} (rest : List Char) (open_ : '\'' ∉ inside) :
      Lexeme (.character true) ('\'' :: c :: (inside ++ ['\''])) rest
  | openCharacter {inside : List Char} (open_ : '\'' ∉ inside.tail) :
      Lexeme (.character false) ('\'' :: inside) []
  | word {c : Char} {body rest : List Char} (first : startsWord c = true)
      (more : ∀ d ∈ body, continuesWord d = true)
      (stop : ∀ d ∈ rest.head?, continuesWord d = false) : Lexeme .word (c :: body) rest
  | unknown {c : Char} (rest : List Char) (nothing : StartsNothing c) : Lexeme .unknown [c] rest

/-! ### Scans -/

namespace Scan

variable {kind : Bool → TokenKind} {close quote : Char} {inside rest : List Char}

lemma run_eq (kind : TokenKind) {p : Char → Bool} {body : List Char}
    (hbody : ∀ d ∈ body, p d = true) (hrest : ∀ d ∈ rest.head?, p d = false) :
    Scan.run kind p (body ++ rest) = ⟨kind, body, rest⟩ := by
  have htake : rest.takeWhile p = [] ∧ rest.dropWhile p = rest := by
    cases rest with
    | nil => exact ⟨rfl, rfl⟩
    | cons d rest =>
      have hd : p d = false := hrest d rfl
      simp [hd]
  rw [run, List.takeWhile_append_of_pos hbody, List.dropWhile_append_of_pos hbody, htake.1,
    htake.2, List.append_nil]

lemma through_close (h : close ∉ inside) :
    Scan.through kind close (inside ++ close :: rest) =
      ⟨kind true, inside ++ [close], rest⟩ := by
  have hinside : ∀ d ∈ inside, (d != close) = true := fun d hd =>
    bne_iff_ne.mpr fun heq => h (heq ▸ hd)
  simp [through, List.dropWhile_append_of_pos hinside, List.takeWhile_append_of_pos hinside]

lemma through_open (h : close ∉ inside) :
    Scan.through kind close inside = ⟨kind false, inside, []⟩ := by
  have hinside : ∀ d ∈ inside, (d != close) = true := fun d hd =>
    bne_iff_ne.mpr fun heq => h (heq ▸ hd)
  have hdrop : inside.dropWhile (· != close) = [] := List.dropWhile_eq_nil_iff.mpr hinside
  rw [through, hdrop]

lemma quoted_close (c : Char) (h : quote ∉ inside) :
    Scan.quoted kind quote (c :: (inside ++ quote :: rest)) =
      ⟨kind true, c :: (inside ++ [quote]), rest⟩ := by
  rw [quoted, through_close h]

lemma quoted_open (h : quote ∉ inside.tail) :
    Scan.quoted kind quote inside = ⟨kind false, inside, []⟩ := by
  cases inside with
  | nil => rfl
  | cons c inside =>
    have hinside : quote ∉ inside := h
    rw [quoted, through_open hinside]

lemma run_stops (kind : TokenKind) (p : Char → Bool) (cs : List Char) :
    (∀ d ∈ (Scan.run kind p cs).body, p d = true) ∧
      ∀ d ∈ (Scan.run kind p cs).rest.head?, p d = false := by
  refine ⟨fun d hd => List.mem_takeWhile_imp hd, fun d hd => ?_⟩
  have hne : cs.dropWhile p ≠ [] := by
    rintro hnil
    simp [run, hnil] at hd
  have hhead := List.head_dropWhile_not p hne
  rw [run, List.head?_eq_some_head hne, Option.mem_some_iff] at hd
  rwa [hd] at hhead

end Scan

lemma not_isBlank_of_startsWord {c : Char} (h : startsWord c = true) : isBlank c = false := by
  rw [Bool.eq_false_iff]
  intro hblank
  simp only [isBlank, Bool.or_eq_true, beq_iff_eq] at hblank
  rcases hblank with (rfl | rfl) | rfl <;> exact absurd h (by decide)

lemma startsWord_of_isAlphanum {c : Char} (h : c.isAlphanum = true) : startsWord c = true := by
  simp [startsWord, h]

lemma continuesWord_of_isBlank {c : Char} (h : isBlank c = true) : continuesWord c = false := by
  simp only [isBlank, Bool.or_eq_true, beq_iff_eq] at h
  rcases h with (rfl | rfl) | rfl <;> rfl

/-- A text that begins with a lexeme is cut behind it. -/
theorem scan_of_lexeme {kind : TokenKind} {c : Char} {body rest : List Char}
    (h : Lexeme kind (c :: body) rest) : scan c (body ++ rest) = ⟨kind, body, rest⟩ := by
  cases h with
  | comment => simp [scan]
  | blank first more stop =>
    have hne : c ≠ ';' := by
      rintro rfl
      exact absurd first (by decide)
    rw [scan, if_neg hne, if_pos first, Scan.run_eq _ more stop]
  | colon | comma => rfl
  | address _ hopen =>
    rw [List.append_assoc]
    exact Scan.through_close hopen
  | openAddress hopen =>
    rw [List.append_nil]
    exact Scan.through_open hopen
  | text d _ hopen | character d _ hopen =>
    rw [List.cons_append, List.append_assoc]
    exact Scan.quoted_close d hopen
  | openText hopen | openCharacter hopen =>
    rw [List.append_nil]
    exact Scan.quoted_open hopen
  | word first more stop =>
    have hne : ∀ d, startsWord d = false → c ≠ d := by
      rintro d hd rfl
      exact absurd first (by simp [hd])
    simp only [scan, hne ';' rfl, hne ':' rfl, hne ',' rfl, hne '[' rfl, hne '"' rfl, hne '\'' rfl,
      not_isBlank_of_startsWord first, first, if_true, if_false, Bool.false_eq_true]
    exact Scan.run_eq _ more stop
  | unknown _ nothing =>
    obtain ⟨hmem, hblank, hword⟩ := nothing
    simp only [List.mem_cons, List.not_mem_nil, or_false, not_or] at hmem
    simp [scan, hmem, hblank, hword]

/-- Every scan finds a lexeme. -/
theorem lexeme_scan (c : Char) (cs : List Char) :
    Lexeme (scan c cs).kind (c :: (scan c cs).body) (scan c cs).rest := by
  unfold scan
  split_ifs with hsemi hblank hcolon hcomma hbracket hquote htick hword
  · subst hsemi
    exact .comment cs
  · obtain ⟨hbody, hrest⟩ := Scan.run_stops .blank isBlank cs
    exact .blank hblank hbody hrest
  · subst hcolon
    exact .colon cs
  · subst hcomma
    exact .comma cs
  · subst hbracket
    by_cases hclose : ']' ∈ cs
    · obtain ⟨inside, rest, rfl, hinside⟩ := List.eq_append_cons_of_mem hclose
      rw [Scan.through_close hinside]
      exact .address rest hinside
    · rw [Scan.through_open hclose]
      exact .openAddress hclose
  · subst hquote
    by_cases hclose : '"' ∈ cs.tail
    · have hne := List.ne_nil_of_mem (List.mem_of_mem_tail hclose)
      obtain ⟨d, cs, rfl⟩ := List.exists_cons_of_ne_nil hne
      obtain ⟨inside, rest, rfl, hinside⟩ := List.eq_append_cons_of_mem hclose
      rw [Scan.quoted_close d hinside]
      exact .text d rest hinside
    · rw [Scan.quoted_open hclose]
      exact .openText hclose
  · subst htick
    by_cases hclose : '\'' ∈ cs.tail
    · have hne := List.ne_nil_of_mem (List.mem_of_mem_tail hclose)
      obtain ⟨d, cs, rfl⟩ := List.exists_cons_of_ne_nil hne
      obtain ⟨inside, rest, rfl, hinside⟩ := List.eq_append_cons_of_mem hclose
      rw [Scan.quoted_close d hinside]
      exact .character d rest hinside
    · rw [Scan.quoted_open hclose]
      exact .openCharacter hclose
  · obtain ⟨hbody, hrest⟩ := Scan.run_stops .word continuesWord cs
    exact .word hword hbody hrest
  · exact .unknown cs ⟨by simp_all, by simpa using hblank, by simpa using hword⟩

/-- Letters and digits make a word. -/
lemma lexeme_of_isAlphanum {cs rest : List Char} (hne : cs ≠ [])
    (hcs : ∀ c ∈ cs, c.isAlphanum = true) (hstop : ∀ d ∈ rest.head?, continuesWord d = false) :
    Lexeme .word cs rest := by
  obtain ⟨c, body, rfl⟩ := List.exists_cons_of_ne_nil hne
  rw [List.forall_mem_cons] at hcs
  refine .word (startsWord_of_isAlphanum hcs.1) (fun d hd => ?_) hstop
  simp [continuesWord, hcs.2 d hd]

lemma Lexeme.ne_nil {kind : TokenKind} {cs rest : List Char} (h : Lexeme kind cs rest) :
    cs ≠ [] := by
  cases h <;> exact List.cons_ne_nil _ _

end Token

/-! ### Tokens of a line -/

open Token Text

variable {line : List Char} {offset : ℕ} {token : Token}

lemma Text.byteLength_pos {cs : List Char} (h : cs ≠ []) : 0 < byteLength cs := by
  obtain ⟨c, cs, rfl⟩ := List.exists_cons_of_ne_nil h
  have hc := c.utf8Size_pos
  rw [byteLength_cons]
  omega

theorem tokenize_of_lexeme {kind : TokenKind} {cs rest : List Char} (h : Lexeme kind cs rest)
    (offset : ℕ) : tokenize (cs ++ rest) offset =
      ⟨kind, cs, offset⟩ :: tokenize rest (offset + byteLength cs) := by
  obtain ⟨c, body, rfl⟩ := List.exists_cons_of_ne_nil h.ne_nil
  rw [List.cons_append, tokenize, scan_of_lexeme h]
  rfl

/-- The tokens are those of the line, each as its first character has it: a lexeme of its kind. -/
inductive Segments : List Char → ℕ → List Token → Prop
  | nil (offset : ℕ) : Segments [] offset []
  | cons {kind : TokenKind} {text rest : List Char} {offset : ℕ} {tokens : List Token}
      (lexeme : Lexeme kind text rest) (more : Segments rest (offset + byteLength text) tokens) :
      Segments (text ++ rest) offset (⟨kind, text, offset⟩ :: tokens)

theorem segments_tokenize (line : List Char) (offset : ℕ) :
    Segments line offset (tokenize line offset) := by
  fun_induction tokenize line offset with
  | case1 offset => exact .nil offset
  | case2 offset c cs first ih =>
    have hline : c :: cs = first.text ++ (scan c cs).rest := by simp [first, scan_append]
    rw [hline]
    exact .cons (lexeme_scan c cs) ih

/-- There is one way to cut a line. -/
theorem segments_iff {tokens : List Token} :
    Segments line offset tokens ↔ tokens = tokenize line offset := by
  constructor
  · intro h
    induction h with
    | nil => rw [tokenize]
    | cons lexeme _ ih => rw [tokenize_of_lexeme lexeme, ih]
  · rintro rfl
    exact segments_tokenize line offset

/-- Where a token stands in its line. -/
theorem exists_split_of_mem_tokenize (h : token ∈ tokenize line offset) :
    ∃ before after, line = before ++ token.text ++ after ∧
      token.offset = offset + byteLength before ∧ Lexeme token.kind token.text after := by
  have hsegments := segments_tokenize line offset
  generalize tokenize line offset = tokens at h hsegments
  induction hsegments with
  | nil => cases h
  | @cons kind text rest offset tokens lexeme _ ih =>
    rcases List.mem_cons.mp h with rfl | h
    · exact ⟨[], rest, rfl, rfl, lexeme⟩
    · obtain ⟨before, after, rfl, hoffset, hlexeme⟩ := ih h
      refine ⟨text ++ before, after, by simp, ?_, hlexeme⟩
      rw [hoffset, byteLength_append, Nat.add_assoc]

lemma text_ne_nil_of_mem_tokenize (h : token ∈ tokenize line offset) : token.text ≠ [] := by
  obtain ⟨_, _, _, _, hlexeme⟩ := exists_split_of_mem_tokenize h
  exact hlexeme.ne_nil

/-- Brackets enclose what is inside an address. -/
lemma text_eq_of_address (h : token ∈ tokenize line offset) (hkind : token.kind = .address true) :
    token.text = '[' :: (token.inner ++ [']']) := by
  obtain ⟨_, _, _, _, hlexeme⟩ := exists_split_of_mem_tokenize h
  obtain ⟨kind, cs, _⟩ := token
  obtain rfl : kind = .address true := hkind
  cases hlexeme
  simp [Token.inner]

lemma le_offset_of_mem_tokenize (h : token ∈ tokenize line offset) : offset ≤ token.offset := by
  obtain ⟨_, _, _, hoffset, _⟩ := exists_split_of_mem_tokenize h
  omega

/-- Every token begins behind those in front of it. -/
theorem tokenize_pairwise (line : List Char) (offset : ℕ) :
    (tokenize line offset).Pairwise fun a b => a.offset < b.offset := by
  fun_induction tokenize line offset with
  | case1 => exact .nil
  | case2 offset c cs first ih =>
    refine List.pairwise_cons.mpr ⟨fun token h => ?_, ih⟩
    have hbehind : first.offset + byteLength first.text ≤ token.offset :=
      le_offset_of_mem_tokenize h
    have hpos : 0 < byteLength first.text := byteLength_pos (List.cons_ne_nil _ _)
    omega

lemma tokenize_nodup (line : List Char) (offset : ℕ) : (tokenize line offset).Nodup :=
  (tokenize_pairwise line offset).imp fun hlt heq => hlt.ne (congrArg Token.offset heq)

/-! ### Tokens that carry meaning -/

section Meaning

variable {cs rest : List Char}

/-- Nothing but blanks. -/
def Blanks (cs : List Char) : Prop := ∀ c ∈ cs, isBlank c = true

/-- The tokens of a text that carry meaning. -/
def significant (cs : List Char) (offset : ℕ) : List Token :=
  (tokenize cs offset).filter Token.isSignificant

lemma significant_of_lexeme {kind : TokenKind} (h : Lexeme kind cs rest)
    (hkind : kind ≠ .blank ∧ kind ≠ .comment) (offset : ℕ) : significant (cs ++ rest) offset =
      ⟨kind, cs, offset⟩ :: significant rest (offset + byteLength cs) := by
  rw [significant, tokenize_of_lexeme h, List.filter_cons_of_pos (by simp [isSignificant, hkind])]
  rfl

/-- Blanks in front of something else tell nothing. -/
lemma significant_blanks (h : Blanks cs) (hrest : ∀ d ∈ rest.head?, isBlank d = false)
    (offset : ℕ) : significant (cs ++ rest) offset =
      significant rest (offset + byteLength cs) := by
  cases cs with
  | nil => rfl
  | cons c cs =>
    rw [Blanks, List.forall_mem_cons] at h
    have hlexeme : Lexeme .blank (c :: cs) rest := .blank h.1 h.2 hrest
    rw [significant, tokenize_of_lexeme hlexeme, List.filter_cons_of_neg (by simp [isSignificant])]
    rfl

lemma significant_eq_nil (h : Blanks cs) (offset : ℕ) : significant cs offset = [] := by
  have hblanks := significant_blanks h (fun d (hd : d ∈ [].head?) => nomatch hd) offset
  rw [List.append_nil] at hblanks
  rw [hblanks, significant, tokenize]
  rfl

/-- Blanks in front of what ends a word end it themselves. -/
lemma Blanks.stop (h : Blanks cs) (hrest : ∀ d ∈ rest.head?, continuesWord d = false) :
    ∀ d ∈ (cs ++ rest).head?, continuesWord d = false := by
  cases cs with
  | nil => exact hrest
  | cons c cs => simpa using continuesWord_of_isBlank (h c List.mem_cons_self)

end Meaning

/-! ### Replaced tokens -/

/-- All that a token can tell of the text behind it: whether there is any, and whether its first
character goes on with blanks or with a word. -/
def boundary (cs : List Char) : Option (Bool × Bool) :=
  cs.head?.map fun c => (isBlank c, continuesWord c)

lemma boundary_append (as bs : List Char) :
    boundary (as ++ bs) = (boundary as).or (boundary bs) := by
  simp only [boundary, List.head?_append, Option.map_or]

lemma Token.Lexeme.of_boundary {kind : TokenKind} {cs rest rest' : List Char}
    (h : Lexeme kind cs rest) (hboundary : boundary rest' = boundary rest) :
    Lexeme kind cs rest' := by
  have hnil : rest = [] → rest' = [] := by
    rintro rfl
    simpa [boundary] using hboundary
  have hstop : ∀ d ∈ rest'.head?, ∃ e ∈ rest.head?,
      isBlank e = isBlank d ∧ continuesWord e = continuesWord d := by
    intro d hd
    simpa [boundary, Option.mem_def.mp hd, eq_comm] using hboundary
  cases h with
  | comment body => rw [hnil rfl]; exact .comment body
  | openAddress hopen => rw [hnil rfl]; exact .openAddress hopen
  | openText hopen => rw [hnil rfl]; exact .openText hopen
  | openCharacter hopen => rw [hnil rfl]; exact .openCharacter hopen
  | blank first more stop =>
    refine .blank first more fun d hd => ?_
    obtain ⟨e, he, hblank, _⟩ := hstop d hd
    exact hblank ▸ stop e he
  | word first more stop =>
    refine .word first more fun d hd => ?_
    obtain ⟨e, he, _, hword⟩ := hstop d hd
    exact hword ▸ stop e he
  | colon => exact .colon _
  | comma => exact .comma _
  | address _ hopen => exact .address _ hopen
  | text c _ hopen => exact .text c _ hopen
  | character c _ hopen => exact .character c _ hopen
  | unknown _ nothing => exact .unknown _ nothing

/-- The text can stand in place of the token: it makes a token of the same kind, and what is in
front of it ends there as before. -/
structure Token.Replaces (cs : List Char) (token : Token) : Prop where
  boundary : boundary cs = boundary token.text
  lexeme : ∀ rest, Lexeme token.kind token.text rest → Lexeme token.kind cs rest

lemma Token.replaces_text (token : Token) : Token.Replaces token.text token := ⟨rfl, fun _ h => h⟩

lemma boundary_flatMap {tokens : List Token} {g : Token → List Char}
    (h : ∀ token ∈ tokens, Replaces (g token) token) :
    boundary (tokens.flatMap g) = boundary (tokens.flatMap Token.text) := by
  induction tokens with
  | nil => rfl
  | cons token tokens ih =>
    rw [List.flatMap_cons, List.flatMap_cons, boundary_append, boundary_append,
      (h token List.mem_cons_self).boundary, ih fun t ht => h t (List.mem_cons_of_mem _ ht)]

/-- If tokens of a line are replaced, the line is still cut in the same places. -/
theorem tokenize_flatMap {g : Token → List Char}
    (h : ∀ token ∈ tokenize line offset, Replaces (g token) token) (offset' : ℕ) :
    List.Forall₂ (fun token token' => token'.kind = token.kind ∧ token'.text = g token)
      (tokenize line offset) (tokenize ((tokenize line offset).flatMap g) offset') := by
  fun_induction tokenize line offset generalizing offset' with
  | case1 => simp [tokenize]
  | case2 offset c cs first ih =>
    have hfirst := h first List.mem_cons_self
    have hrest := fun token ht => h token (List.mem_cons_of_mem _ ht)
    have hboundary := boundary_flatMap hrest
    rw [flatMap_text_tokenize] at hboundary
    rw [List.flatMap_cons,
      tokenize_of_lexeme ((hfirst.lexeme _ (lexeme_scan c cs)).of_boundary hboundary)]
    exact .cons ⟨rfl, rfl⟩ (ih hrest _)

end Octet
