import Octet.Proofs.Cursor

/-!
# Segmentations

A line falls into tokens in one way. Each token is told by the first character that the tokens in
front of it leave, and it begins where they end. So the spans of the tokens lie side by side over
the whole line, and every one of them can be sliced out of the source: no slice begins or ends
inside of a character. The same holds of what brackets or quotes enclose.
-/
namespace Octet

open Text Token

/-! ### Slices of a text -/

namespace Text

variable {cs before middle after : List Char} {start stop n : ℕ}

/-- A text in two parts, the first of them so many bytes long. There are none if the text is shorter
or if the cut comes inside of a character. -/
def splitAt? : ℕ → List Char → Option (List Char × List Char)
  | 0, cs => some ([], cs)
  | _ + 1, [] => none
  | n + 1, c :: cs =>
    if c.utf8Size ≤ n + 1 then (splitAt? (n + 1 - c.utf8Size) cs).map (.map (c :: ·) id) else none

/-- The characters between two byte offsets. -/
def slice? (cs : List Char) (start stop : ℕ) : Option (List Char) := do
  let (front, _) ← splitAt? stop cs
  let (_, middle) ← splitAt? start front
  return middle

lemma eq_nil_of_byteLength_eq_zero (h : byteLength cs = 0) : cs = [] := by
  by_contra hne
  have hpos := byteLength_pos hne
  omega

theorem splitAt?_eq_some_iff :
    splitAt? n cs = some (before, after) ↔ before ++ after = cs ∧ byteLength before = n := by
  fun_induction splitAt? n cs generalizing before with
  | case1 cs =>
    constructor
    · rintro ⟨⟩
      exact ⟨rfl, rfl⟩
    · rintro ⟨rfl, hlength⟩
      rw [eq_nil_of_byteLength_eq_zero hlength]
      rfl
  | case2 n =>
    simp only [reduceCtorEq, List.append_eq_nil_iff, false_iff, not_and, and_imp]
    rintro rfl - ⟨⟩
  | case3 n c cs hfits ih =>
    constructor
    · intro h
      obtain ⟨⟨front, rest⟩, hsplit, heq⟩ := Option.map_eq_some_iff.mp h
      cases heq
      obtain ⟨rfl, hlength⟩ := ih.mp hsplit
      refine ⟨rfl, ?_⟩
      rw [byteLength_cons, hlength]
      omega
    · rintro ⟨happend, hlength⟩
      obtain _ | ⟨d, front⟩ := before
      · cases hlength
      obtain ⟨rfl, rfl⟩ := List.cons_eq_cons.mp happend
      rw [byteLength_cons] at hlength
      rw [ih.mpr ⟨rfl, by omega⟩]
      rfl
  | case4 n c cs hlong =>
    simp only [reduceCtorEq, false_iff, not_and]
    rintro happend hlength
    obtain _ | ⟨d, front⟩ := before
    · cases hlength
    obtain ⟨rfl, rfl⟩ := List.cons_eq_cons.mp happend
    rw [byteLength_cons] at hlength
    omega

theorem slice?_eq_some_iff : slice? cs start stop = some middle ↔
    ∃ before after, cs = before ++ middle ++ after ∧ byteLength before = start ∧
      start + byteLength middle = stop := by
  simp only [slice?, Option.bind_eq_bind, Option.bind_eq_some_iff, Option.pure_def,
    Option.some.injEq, Prod.exists, splitAt?_eq_some_iff]
  constructor
  · rintro ⟨_, after, ⟨rfl, hstop⟩, before, _, ⟨rfl, hstart⟩, rfl⟩
    rw [byteLength_append, hstart] at hstop
    exact ⟨before, after, rfl, hstart, hstop⟩
  · rintro ⟨before, after, rfl, hstart, hstop⟩
    refine ⟨before ++ middle, after, ⟨rfl, ?_⟩, before, middle, ⟨rfl, hstart⟩, rfl⟩
    rw [byteLength_append, hstart, hstop]

end Text

/-! ### Spans side by side -/

/-- The spans lie side by side from one offset to another, and none of them is empty. -/
inductive Span.Tile : ℕ → ℕ → List Span → Prop
  | nil (offset : ℕ) : Tile offset offset []
  | cons {span : Span} {stop : ℕ} {spans : List Span} (pos : 0 < span.length)
      (more : Tile span.stop stop spans) : Tile span.offset stop (span :: spans)

variable {line : List Char} {offset : ℕ} {token : Token}

/-- Every token begins where the one in front of it ends. -/
theorem Segments.tile {tokens : List Token} (h : Segments line offset tokens) :
    Span.Tile offset (offset + byteLength line) (tokens.map Token.span) := by
  induction h with
  | nil offset => exact .nil offset
  | @cons kind text rest offset tokens lexeme _ ih =>
    have hpos : 0 < (Token.span ⟨kind, text, offset⟩).length := byteLength_pos lexeme.ne_nil
    rw [byteLength_append, ← Nat.add_assoc]
    exact .cons hpos ih

/-! ### Slices of a token -/

lemma slice?_span (h : token ∈ tokenize line offset) {before : List Char}
    (hbefore : byteLength before = offset) (after : List Char) :
    slice? (before ++ line ++ after) token.span.offset token.span.stop = some token.text := by
  obtain ⟨front, rest, rfl, hoffset, -⟩ := exists_split_of_mem_tokenize h
  refine slice?_eq_some_iff.mpr ⟨before ++ front, rest ++ after, by simp, ?_, rfl⟩
  rw [byteLength_append, hbefore]
  exact hoffset.symm

/-- What encloses a text takes one byte on either side. -/
lemma exists_enclosed (h : token ∈ tokenize line offset)
    (hkind : token.kind ∈ [.address true, .text true, .character true]) :
    ∃ a b, a.utf8Size = 1 ∧ b.utf8Size = 1 ∧ token.text = a :: (token.inner ++ [b]) := by
  obtain ⟨_, _, _, _, hlexeme⟩ := exists_split_of_mem_tokenize h
  obtain ⟨kind, cs, _⟩ := token
  simp only [List.mem_cons, List.not_mem_nil, or_false] at hkind
  rcases hkind with rfl | rfl | rfl
  · cases hlexeme
    exact ⟨'[', ']', rfl, rfl, by simp [Token.inner]⟩
  · cases hlexeme
    exact ⟨'"', '"', rfl, rfl, by simp [Token.inner, List.dropLast_cons_of_ne_nil]⟩
  · cases hlexeme
    exact ⟨'\'', '\'', rfl, rfl, by simp [Token.inner, List.dropLast_cons_of_ne_nil]⟩

lemma slice?_inner (h : token ∈ tokenize line offset)
    (hkind : token.kind ∈ [.address true, .text true, .character true]) :
    slice? token.text 1 (byteLength token.text - 1) = some token.inner := by
  obtain ⟨a, b, ha, hb, htext⟩ := exists_enclosed h hkind
  have hlength : byteLength token.text = 1 + byteLength token.inner + 1 := by
    rw [htext, byteLength_cons, byteLength_append, byteLength_cons, byteLength_nil, ha, hb]
    omega
  refine slice?_eq_some_iff.mpr ⟨[a], [b], htext, ha, ?_⟩
  omega

/-- Cutting a line finds its one segmentation, whose tokens lie side by side and can be sliced. A
cursor that counts bytes finds the same tokens, and none of its offsets leaves the range of a
counter that reaches the end of the line. -/
theorem tokenize_is_segmentation (line : List Char) (offset : ℕ) :
    (∀ tokens, Segments line offset tokens ↔ tokens = tokenize line offset) ∧
    Span.Tile offset (offset + byteLength line) ((tokenize line offset).map Token.span) ∧
    (∀ token ∈ tokenize line offset,
      (∀ before after, byteLength before = offset →
        slice? (before ++ line ++ after) token.span.offset token.span.stop = some token.text) ∧
      (token.kind ∈ [.address true, .text true, .character true] →
        slice? token.text 1 (byteLength token.text - 1) = some token.inner)) ∧
    ∀ limit, offset + byteLength line ≤ limit → (Cursor.ofLine line).tokens? limit offset =
      some ((tokenize line offset).map fun token => (token.kind, token.span)) := by
  refine ⟨fun _ => segments_iff, (segments_tokenize line offset).tile,
    fun token h => ⟨?_, slice?_inner h⟩, fun _ => (segments_tokenize line offset).tokens?_ofLine⟩
  intro before after hbefore
  exact slice?_span h hbefore after

end Octet
