import Octet.Proofs.ErrorLocation

/-!
# The first error

A source can be wrong in many places, and one error is reported. While lines are read it is the
error of the first line that cannot be added, and no line behind that one has a say. If all lines
are read, then references are filled in from the start of the image on, and the error is the one of
the first that cannot be.
-/
namespace Octet

open Results Text

/-! ### Lines in front -/

namespace Text

/-- A source up to the end of a line. -/
def cutAfter (source : List Char) (line : ℕ) : List Char :=
  joinLines ((splitLines source).take (line + 1))

theorem splitLines_cutAfter (source : List Char) (line : ℕ) :
    splitLines (cutAfter source line) = (splitLines source).take (line + 1) := by
  refine splitLines_joinLines ?_ fun cs hcs => ?_
  · rw [Ne, List.take_eq_nil_iff, not_or]
    exact ⟨line.succ_ne_zero, splitLines_ne_nil source⟩
  · exact newline_not_mem_of_mem_splitLines (List.mem_of_mem_take hcs)

end Text

/-- The sources have the same lines up to the given one. -/
def SharesLines (source other : List Char) (line : ℕ) : Prop :=
  (splitLines other).take (line + 1) = (splitLines source).take (line + 1)

lemma SourceLine.ofSource_cutAfter (source : List Char) (line : ℕ) :
    ofSource (cutAfter source line) = (ofSource source).take (line + 1) := by
  rw [ofSource, splitLines_cutAfter, locate_take, ofSource]

/-- Shared lines have the same numbers and stand in the same places. -/
lemma SharesLines.exists_split {source other : List Char} {before after : List SourceLine}
    {line : SourceLine} (h : SharesLines source other before.length)
    (hlines : SourceLine.ofSource source = before ++ line :: after) :
    ∃ after', SourceLine.ofSource other = before ++ line :: after' := by
  have htake : (SourceLine.ofSource other).take (before.length + 1) = before ++ [line] := by
    rw [SourceLine.ofSource, ← SourceLine.locate_take, h, SourceLine.locate_take,
      ← SourceLine.ofSource, hlines, List.take_length_add_append, List.take_succ_cons,
      List.take_zero]
  refine ⟨(SourceLine.ofSource other).drop (before.length + 1), ?_⟩
  rw [← List.singleton_append, ← List.append_assoc, ← htake, List.take_append_drop]

/-! ### Errors while lines are read -/

/-- The error ends the reading of the source, at the first line that cannot be read. -/
structure AssemblyError.StopsReading (error : AssemblyError) (source : String) : Prop where
  fails : Draft.ofSource source.toList = .error error
  line_lt : error.line < (splitLines source.toList).length
  /-- The source can be read as long as it is cut in front of the line. -/
  cut_fails_iff (line : ℕ) :
    (∃ other, Draft.ofSource (cutAfter source.toList line) = .error other) ↔ error.line ≤ line
  /-- What stands behind the line does not matter. -/
  shared (other : String) :
    SharesLines source.toList other.toList error.line → assemble other = .error error
  kind : ¬ error.kind.OfLookup

theorem AssemblyError.stopsReading_iff {error : AssemblyError} {source : String} :
    error.StopsReading source ↔ Draft.ofSource source.toList = .error error := by
  refine ⟨StopsReading.fails, fun h => ?_⟩
  obtain ⟨before, line, after, state, hlines, hstate, hline⟩ := foldlM_error_iff.mp h
  obtain ⟨⟨_, _, hnumber, _⟩, hkind⟩ := Draft.error_found_of_addTokens hline
  -- the lines in front are as many as the number of the line says
  have hbefore : error.line = before.length := by
    rw [hnumber, SourceLine.number_of_locate hlines, Nat.zero_add]
  refine ⟨h, ?_, fun k => ?_, fun other hshared => ?_, hkind⟩
  · have hlength := congrArg List.length hlines
    rw [SourceLine.ofSource, SourceLine.length_locate] at hlength
    simp [hbefore, hlength]
  · rw [Draft.ofSource, SourceLine.ofSource_cutAfter, hlines,
      exists_foldlM_take_error_iff hstate hline, hbefore, Nat.lt_succ_iff]
  · rw [hbefore] at hshared
    obtain ⟨after', hother⟩ := hshared.exists_split hlines
    have hfails : Draft.ofSource other.toList = .error error :=
      foldlM_error_iff.mpr ⟨before, line, after', state, hother, hstate, hline⟩
    exact bind_error_iff.mpr (.inl hfails)

/-! ### Errors of references -/

namespace Draft

/-- Why a reference cannot be filled in: its label is declared nowhere in this spelling, or behind
the last cell of memory. -/
inductive Refuses (draft : Draft) (use : Reference) : AssemblyErrorKind → Prop
  | undefined (nowhere : ∀ entry ∈ draft.labels, entry.1 ≠ use.label) :
      Refuses draft use (.undefinedLabel use.label)
  | outside (behind : (use.label, 256) ∈ draft.labels) :
      Refuses draft use (.labelOutOfRange use.label)

/-- The error is that of the first reference in the image that cannot be filled in. -/
def FirstRefusal (draft : Draft) (error : AssemblyError) : Prop :=
  ∃ before use after kind, draft.cells = before ++ .reference use :: after ∧
    (∀ earlier, .reference earlier ∈ before → ∀ kind, ¬ draft.Refuses earlier kind) ∧
    draft.Refuses use kind ∧ error = ⟨kind, use.line, use.span⟩

variable {draft : Draft} {clauses : List Clause}

/-- A label is bound no further than to the end of a full image. -/
lemma Represents.offset_le (h : draft.Represents clauses) {entry : Label × ℕ}
    (hentry : entry ∈ draft.labels) : entry.2 ≤ 256 := by
  rw [h.labels] at hentry
  obtain ⟨⟨clause, line⟩, _, hdeclared⟩ := List.mem_filterMap.mp hentry
  obtain ⟨label, _, rfl⟩ := Option.map_eq_some_iff.mp hdeclared
  exact (Layout.start_le_total line).trans h.fits

lemma Represents.nodup_labels (h : draft.Represents clauses) :
    (draft.labels.map Prod.fst).Nodup := by
  rw [h.labels, Layout.map_fst_labels]
  exact h.distinct.nodup

theorem Represents.resolveCell_error_iff (h : draft.Represents clauses) {use : Reference}
    {error : AssemblyError} : resolveCell draft.labels (.reference use) = .error error ↔
      ∃ kind, draft.Refuses use kind ∧ error = ⟨kind, use.line, use.span⟩ := by
  have hfound : ∀ offset, draft.labels.lookup use.label = some offset ↔
      (use.label, offset) ∈ draft.labels :=
    fun _ => Layout.lookup_eq_some_iff_mem h.nodup_labels
  have hnowhere : draft.labels.lookup use.label = none ↔
      ∀ entry ∈ draft.labels, entry.1 ≠ use.label := by
    rw [List.lookup_eq_none_iff]
    exact forall₂_congr fun entry _ => by rw [bne_iff_ne, ne_comm]
  unfold resolveCell
  dsimp only
  constructor
  · intro hfail
    split at hfail
    · next hnone =>
      cases hfail
      exact ⟨_, .undefined (hnowhere.mp hnone), rfl⟩
    · next offset hsome =>
      have hle : offset ≤ 256 := h.offset_le ((hfound offset).mp hsome)
      split_ifs at hfail with hlt
      obtain rfl : offset = 256 := by omega
      cases hfail
      exact ⟨_, .outside ((hfound 256).mp hsome), rfl⟩
  · rintro ⟨kind, hkind, rfl⟩
    cases hkind with
    | undefined nowhere => rw [hnowhere.mpr nowhere]
    | outside behind =>
      rw [(hfound 256).mpr behind]
      rfl

lemma Represents.exists_resolveCell_ok_iff (h : draft.Represents clauses) {use : Reference} :
    (∃ byte, resolveCell draft.labels (.reference use) = .ok byte) ↔
      ∀ kind, ¬ draft.Refuses use kind := by
  rw [exists_ok_iff]
  simp only [Ne, h.resolveCell_error_iff, not_exists, not_and]
  exact ⟨fun hall kind hkind => hall _ kind hkind rfl,
    fun hnone _ kind hkind => absurd hkind (hnone kind)⟩

theorem Represents.resolve_error_iff (h : draft.Represents clauses) {error : AssemblyError} :
    draft.resolve = .error error ↔ draft.FirstRefusal error := by
  have hcells : draft.resolve = .error error ↔
      draft.cells.mapM (resolveCell draft.labels) = .error error := map_error_iff
  rw [hcells, mapM_error_iff]
  constructor
  · rintro ⟨before, cell, after, hsplit, hbefore, hfail⟩
    cases cell with
    | byte => cases hfail
    | reference use =>
      obtain ⟨kind, hkind, herror⟩ := h.resolveCell_error_iff.mp hfail
      exact ⟨before, use, after, kind, hsplit,
        fun earlier hearlier => h.exists_resolveCell_ok_iff.mp (hbefore _ hearlier), hkind, herror⟩
  · rintro ⟨before, use, after, kind, hsplit, hbefore, hkind, herror⟩
    refine ⟨before, .reference use, after, hsplit, fun cell hcell => ?_,
      h.resolveCell_error_iff.mpr ⟨kind, hkind, herror⟩⟩
    cases cell with
    | byte value => exact ⟨value, rfl⟩
    | reference earlier => exact h.exists_resolveCell_ok_iff.mpr (hbefore earlier hcell)

end Draft

/-- A source is refused with the error of its first line that cannot be read. If every line can be
read, then no label is bound behind the end of memory, and the error is that of the first reference
in the image that cannot be filled in. -/
theorem first_error_is_reported (source : String) (error : AssemblyError) :
    assemble source = .error error ↔ error.StopsReading source ∨
      ∃ draft, Draft.ofSource source.toList = .ok draft ∧
        (∀ entry ∈ draft.labels, entry.2 ≤ 256) ∧ draft.FirstRefusal error := by
  rw [assemble, bind_error_iff, AssemblyError.stopsReading_iff]
  refine or_congr_right (exists_congr fun draft => and_congr_right fun hdraft => ?_)
  obtain ⟨clauses, _, hrepresents⟩ := Draft.exists_reads_of_ofSource hdraft
  rw [hrepresents.resolve_error_iff, and_iff_right]
  exact fun _ => hrepresents.offset_le

/-- A line that cannot be read comes before a reference in front of it. -/
example : assemble "JP b\nNOP\nJP c" = .error ⟨.invalidInstruction "NOP", 1, ⟨5, 3⟩⟩ := by
  decide +kernel

end Octet
