import Octet.Source.Line
import Mathlib.Tactic

/-!
# Lines of a source

Cutting a source at its line feeds and putting lines together again undo each other. Every line
knows where it stands: its number counts the line feeds in front of it, and its offset the bytes.
-/
namespace Octet

namespace Text

/-- Lines put together, with a line feed between neighbours. -/
def joinLines (lines : List (List Char)) : List Char := ['\n'].intercalate lines

theorem pieces_eq_splitOn (separator : Char) (cs : List Char) :
    pieces separator cs = cs.splitOn separator := by
  induction cs with
  | nil => rfl
  | cons c cs ih =>
    rw [List.splitOn_cons_eq_if_modifyHead, ← ih]
    simp [pieces]

theorem splitLines_eq_splitOn (cs : List Char) : splitLines cs = cs.splitOn '\n' :=
  pieces_eq_splitOn '\n' cs

lemma splitLines_ne_nil (cs : List Char) : splitLines cs ≠ [] := by
  rw [splitLines_eq_splitOn]
  exact List.splitOn_ne_nil _ _

/-- A line feed ends the lines of what stands in front of it. -/
theorem splitLines_append (as bs : List Char) :
    splitLines (as ++ '\n' :: bs) = splitLines as ++ splitLines bs := by
  simp only [splitLines_eq_splitOn, List.splitOn_append_cons_self]

theorem joinLines_splitLines (cs : List Char) : joinLines (splitLines cs) = cs := by
  rw [splitLines_eq_splitOn]
  exact List.intercalate_splitOn _

theorem splitLines_joinLines {lines : List (List Char)} (hne : lines ≠ [])
    (hlines : ∀ line ∈ lines, '\n' ∉ line) : splitLines (joinLines lines) = lines := by
  rw [splitLines_eq_splitOn]
  exact List.splitOn_intercalate _ hlines hne

lemma separator_not_mem_of_mem_pieces {separator : Char} {cs piece : List Char}
    (h : piece ∈ pieces separator cs) : separator ∉ piece := by
  induction cs generalizing piece with
  | nil =>
    have hpiece : piece = [] := List.mem_singleton.mp h
    simp [hpiece]
  | cons c cs ih =>
    by_cases hc : c = separator
    · have hsplit : pieces separator (c :: cs) = [] :: pieces separator cs := if_pos hc
      rw [hsplit, List.mem_cons] at h
      rcases h with rfl | h
      · simp
      · exact ih h
    · have hsplit : pieces separator (c :: cs) = (pieces separator cs).modifyHead (c :: ·) :=
        if_neg hc
      obtain ⟨first, rest, hpieces⟩ : ∃ first rest, pieces separator cs = first :: rest := by
        rw [pieces_eq_splitOn]
        exact List.exists_cons_of_ne_nil (List.splitOn_ne_nil _ _)
      rw [hsplit, hpieces, List.modifyHead_cons, List.mem_cons] at h
      rw [hpieces] at ih
      rcases h with rfl | h
      · simpa [Ne.symm hc] using ih List.mem_cons_self
      · exact ih (List.mem_cons_of_mem _ h)

lemma newline_not_mem_of_mem_splitLines {cs line : List Char} (h : line ∈ splitLines cs) :
    '\n' ∉ line := separator_not_mem_of_mem_pieces h

/-- Every line takes its bytes, and one more for the line feed unless it is the last. -/
lemma byteLength_joinLines {lines : List (List Char)} (hne : lines ≠ []) :
    byteLength (joinLines lines) + 1 = (lines.map (byteLength · + 1)).sum := by
  induction lines with
  | nil => exact absurd rfl hne
  | cons line lines ih =>
    by_cases hlines : lines = []
    · simp [joinLines, hlines]
    · have hnewline : '\n'.utf8Size = 1 := rfl
      simp only [joinLines, List.intercalate_cons_of_ne_nil hlines, byteLength_append,
        byteLength_cons, byteLength_nil, hnewline, List.map_cons, List.sum_cons] at ih ⊢
      rw [← ih hlines]
      omega

end Text

namespace SourceLine

open Text

variable {number offset : ℕ} {line : SourceLine}

@[simp] theorem length_locate (number offset : ℕ) (lines : List (List Char)) :
    (locate number offset lines).length = lines.length := by
  induction lines generalizing number offset with
  | nil => rfl
  | cons cs lines ih => simp [locate, ih]

theorem locate_append (number offset : ℕ) (as bs : List (List Char)) :
    locate number offset (as ++ bs) = locate number offset as ++
      locate (number + as.length) (offset + (as.map (byteLength · + 1)).sum) bs := by
  induction as generalizing number offset with
  | nil => simp [locate]
  | cons cs as ih =>
    rw [List.cons_append, locate, ih, locate, List.cons_append]
    congr 3
    · rw [List.length_cons]
      omega
    · rw [List.map_cons, List.sum_cons]
      omega

theorem locate_take (number offset : ℕ) (lines : List (List Char)) (n : ℕ) :
    locate number offset (lines.take n) = (locate number offset lines).take n := by
  rcases le_total lines.length n with hle | hle
  · rw [List.take_of_length_le hle, List.take_of_length_le (by simpa using hle)]
  · conv_rhs => rw [← List.take_append_drop n lines, locate_append]
    rw [List.take_left' (by simpa using hle)]

/-- The number of a line tells how many lines are in front of it. -/
lemma number_of_locate {lines : List (List Char)} {before after : List SourceLine}
    (h : locate number offset lines = before ++ line :: after) :
    line.number = number + before.length := by
  induction before generalizing number offset lines with
  | nil =>
    cases lines with
    | nil => cases h
    | cons cs lines =>
      rw [locate, List.nil_append] at h
      obtain ⟨rfl, _⟩ := List.cons_eq_cons.mp h
      rfl
  | cons first before ih =>
    cases lines with
    | nil => cases h
    | cons cs lines =>
      rw [locate, List.cons_append] at h
      obtain ⟨_, h⟩ := List.cons_eq_cons.mp h
      rw [ih h, List.length_cons]
      omega

/-- The lines of a second source are numbered and placed behind those of the first. -/
theorem ofSource_append (a b : List Char) : ofSource (a ++ '\n' :: b) =
    ofSource a ++ locate (splitLines a).length (byteLength a + 1) (splitLines b) := by
  have hbytes := byteLength_joinLines (splitLines_ne_nil a)
  rw [joinLines_splitLines] at hbytes
  rw [ofSource, splitLines_append, locate_append, ← hbytes, Nat.zero_add, Nat.zero_add, ofSource]

lemma exists_split_of_mem_locate {lines : List (List Char)}
    (hlines : ∀ cs ∈ lines, '\n' ∉ cs) (h : line ∈ locate number offset lines) :
    ∃ before after, joinLines lines = before ++ line.chars ++ after ∧
      line.number = number + before.count '\n' ∧ line.offset = offset + byteLength before := by
  induction lines generalizing number offset with
  | nil => cases h
  | cons cs lines ih =>
    rw [locate, List.mem_cons] at h
    rcases h with rfl | h
    · by_cases hne : lines = []
      · exact ⟨[], [], by simp [joinLines, hne], rfl, rfl⟩
      · exact ⟨[], '\n' :: joinLines lines,
          by simp [joinLines, List.intercalate_cons_of_ne_nil hne], rfl, rfl⟩
    · obtain ⟨before, after, hsplit, hnumber, hoffset⟩ :=
        ih (fun l hl => hlines l (List.mem_cons_of_mem _ hl)) h
      have hne : lines ≠ [] := by
        rintro rfl
        cases h
      have hfirst : cs.count '\n' = 0 := List.count_eq_zero.mpr (hlines cs List.mem_cons_self)
      have hnewline : '\n'.utf8Size = 1 := rfl
      refine ⟨cs ++ '\n' :: before, after, ?_, ?_, ?_⟩
      · rw [joinLines, List.intercalate_cons_of_ne_nil hne, ← joinLines, hsplit]
        simp
      · rw [hnumber, List.count_append, List.count_cons_self, hfirst]
        omega
      · rw [hoffset, byteLength_append, byteLength_cons, hnewline]
        omega

/-- Where a line stands in its source. -/
theorem exists_split_of_mem_ofSource {source : List Char} (h : line ∈ ofSource source) :
    ∃ before after, source = before ++ line.chars ++ after ∧
      line.number = before.count '\n' ∧ line.offset = byteLength before := by
  obtain ⟨before, after, hsplit, hnumber, hoffset⟩ :=
    exists_split_of_mem_locate (fun _ hcs => newline_not_mem_of_mem_splitLines hcs) h
  rw [joinLines_splitLines] at hsplit
  exact ⟨before, after, hsplit, by omega, by omega⟩

lemma chars_mem_of_mem_locate {lines : List (List Char)} (h : line ∈ locate number offset lines) :
    line.chars ∈ lines := by
  induction lines generalizing number offset with
  | nil => cases h
  | cons cs lines ih =>
    rw [locate, List.mem_cons] at h
    rcases h with rfl | h
    · exact List.mem_cons_self
    · exact List.mem_cons_of_mem _ (ih h)

/-- Lines that are each written anew are the lines of a new source, if they stay single lines. -/
lemma ofSource_joinLines_map {source : List Char} {g : SourceLine → List Char}
    (h : ∀ line ∈ ofSource source, '\n' ∉ line.chars → '\n' ∉ g line) :
    ofSource (joinLines ((ofSource source).map g)) = locate 0 0 ((ofSource source).map g) := by
  have hne : (ofSource source).map g ≠ [] := by
    rw [← List.length_pos_iff, List.length_map, ofSource, length_locate, List.length_pos_iff]
    exact splitLines_ne_nil _
  have hlines : ∀ cs ∈ (ofSource source).map g, '\n' ∉ cs := by
    intro cs hcs
    obtain ⟨line, hline, rfl⟩ := List.mem_map.mp hcs
    exact h line hline (newline_not_mem_of_mem_splitLines (chars_mem_of_mem_locate hline))
  rw [ofSource, splitLines_joinLines hne hlines]

/-- Such lines are related to the old ones one by one, wherever the new ones come to stand. -/
lemma forall₂_locate_map {R : SourceLine → SourceLine → Prop} {lines : List SourceLine}
    {g : SourceLine → List Char}
    (h : ∀ line ∈ lines, ∀ number offset, R line ⟨number, offset, g line⟩)
    (number offset : ℕ) : List.Forall₂ R lines (locate number offset (lines.map g)) := by
  induction lines generalizing number offset with
  | nil => exact .nil
  | cons line lines ih =>
    rw [List.forall_mem_cons] at h
    exact .cons (h.1 _ _) (ih h.2 _ _)

end SourceLine

end Octet
