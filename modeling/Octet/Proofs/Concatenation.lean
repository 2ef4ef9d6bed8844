import Octet.Proofs.Relocation

/-!
# Sources behind one another

Nothing but the image and the labels of a source is passed on to the lines that follow it. So a
source that makes a draft on its own makes the same draft behind another source, moved to its place
there, unless a label is taken or the image gets too long. One line keeps this up, and so do all.
-/
namespace Octet

open Results Text

namespace Draft

/-- The second draft behind the first, where places of the second are found by a relocation. -/
def append (a b : Draft) (r : Relocation) : Draft where
  cells := a.cells ++ b.cells.map (Cell.relocate r)
  mapping := a.mapping ++
    b.mapping.map fun (offset, line) => (offset + a.cells.length, r.line line)
  labels := a.labels ++ b.labels.map fun (label, offset) => (label, offset + a.cells.length)

/-- Two drafts go into one memory, and no label of one is a label of the other but for case. -/
structure Joinable (a b : Draft) : Prop where
  distinct : ∀ x ∈ a.labels, ∀ y ∈ b.labels, x.1.folded ≠ y.1.folded
  fits : a.cells.length + b.cells.length ≤ 256

/-- Why a draft does not go behind another one. -/
def Conflict (a b : Draft) (kind : AssemblyErrorKind) : Prop :=
  (kind = .programTooLarge ∧ 256 < a.cells.length + b.cells.length) ∨
    ∃ x ∈ a.labels, ∃ y ∈ b.labels, x.1.folded = y.1.folded ∧ kind = .duplicateLabel y.1

/-- The result is one draft behind the other, or tells why there is none. -/
def Joins (a b : Draft) (r : Relocation) (result : Except AssemblyError Draft) : Prop :=
  (a.Joinable b ∧ result = .ok (a.append b r)) ∨
    ∃ error, result = .error error ∧ a.Conflict b error.kind

/-- Nothing has been taken out of the first draft on the way to the second. -/
structure Extends (b b' : Draft) : Prop where
  labels : b.labels ⊆ b'.labels
  cells : b.cells.length ≤ b'.cells.length

variable {a b b' b'' : Draft} {r : Relocation} {line : ℕ} {tokens : List Token}

lemma Extends.trans (h : b.Extends b') (h' : b'.Extends b'') : b.Extends b'' :=
  ⟨List.Subset.trans h.labels h'.labels, h.cells.trans h'.cells⟩

lemma Conflict.mono {kind : AssemblyErrorKind} (h : a.Conflict b kind) (hextends : b.Extends b') :
    a.Conflict b' kind := by
  rcases h with ⟨hkind, hlarge⟩ | ⟨x, hx, y, hy, hfolded, hkind⟩
  · have hcells := hextends.cells
    exact .inl ⟨hkind, by omega⟩
  · exact .inr ⟨x, hx, y, hextends.labels hy, hfolded, hkind⟩

lemma Conflict.not_joinable {kind : AssemblyErrorKind} (h : a.Conflict b kind) :
    ¬ a.Joinable b := by
  rintro ⟨hdistinct, hfits⟩
  rcases h with ⟨_, hlarge⟩ | ⟨x, hx, y, hy, hfolded, _⟩
  · omega
  · exact hdistinct x hx y hy hfolded

/-! ### What lines add -/

lemma extends_withLabel (b : Draft) (label : Label) : b.Extends (b.withLabel label) :=
  ⟨List.subset_append_left _ _, le_rfl⟩

lemma extends_emit (b : Draft) (line : ℕ) (emission : Emission) :
    b.Extends (b.emit line emission) :=
  ⟨List.Subset.refl _, by simp [emit]⟩

lemma extends_of_addStatement (h : b.addStatement line tokens = .ok b') : b.Extends b' := by
  rcases addStatement_cases h with ⟨_, rfl⟩ | ⟨_, _, emission, _, _, rfl, _⟩
  · exact ⟨List.Subset.refl _, le_rfl⟩
  · exact extends_emit b line emission

lemma extends_of_addTokens (h : b.addTokens line tokens = .ok b') : b.Extends b' := by
  rcases addTokens_cases h with ⟨_, hstatement⟩ | ⟨_, _, _, label, _, _, _, _, hstatement⟩
  · exact extends_of_addStatement hstatement
  · exact (extends_withLabel b label).trans (extends_of_addStatement hstatement)

lemma extends_of_foldlM {lines : List SourceLine} (h : lines.foldlM addLine b = .ok b') :
    b.Extends b' := by
  induction lines generalizing b with
  | nil =>
    obtain rfl := Except.ok.inj h
    exact ⟨List.Subset.refl _, le_rfl⟩
  | cons line lines ih =>
    rw [List.foldlM_cons] at h
    obtain ⟨middle, hmiddle, hrest⟩ := bind_ok_iff.mp h
    exact (extends_of_addTokens hmiddle).trans (ih hrest)

/-! ### One line -/

lemma declares_append {label : Label} :
    (a.append b r).Declares label ↔ a.Declares label ∨ b.Declares label := by
  simp only [Declares, append, List.mem_append, List.mem_map, or_and_right, exists_or]
  refine or_congr_right ⟨?_, ?_⟩
  · rintro ⟨_, ⟨entry, hentry, rfl⟩, hfolded⟩
    exact ⟨entry, hentry, hfolded⟩
  · rintro ⟨entry, hentry, hfolded⟩
    exact ⟨_, ⟨entry, hentry, rfl⟩, hfolded⟩

lemma withLabel_append (label : Label) :
    (a.append b r).withLabel label = a.append (b.withLabel label) r := by
  simp [withLabel, append, Nat.add_comm]

lemma emit_append (emission : Emission) :
    (a.append b r).emit (r.line line) (emission.relocate r) =
      a.append (b.emit line emission) r := by
  cases emission <;> simp [emit, append, Emission.relocate, Emission.cells, Nat.add_comm,
    Cell.relocate]

lemma length_append : (a.append b r).cells.length = a.cells.length + b.cells.length := by
  simp [append]

theorem Joinable.addStatement (hjoin : a.Joinable b)
    (h : b.addStatement line tokens = .ok b') :
    a.Joins b' r ((a.append b r).addStatement (r.line line) (tokens.map (Token.relocate r))) := by
  rcases addStatement_cases h with ⟨rfl, rfl⟩ | ⟨head, rest, emission, rfl, hemission, rfl, -⟩
  · exact .inl ⟨hjoin, rfl⟩
  · have hmoved : Emission.ofTokens (r.line line) (head.relocate r)
        (rest.map (Token.relocate r)) = .ok (emission.relocate r) := by
      rw [Emission.ofTokens_relocate, hemission]
      rfl
    rw [List.map_cons, Draft.addStatement, hmoved]
    dsimp only [bind, Except.bind]
    rw [emit_append]
    by_cases hfits : (a.append (b.emit line emission) r).Fits
    · rw [if_pos hfits]
      rw [Fits, length_append] at hfits
      exact .inl ⟨⟨hjoin.distinct, hfits⟩, rfl⟩
    · rw [if_neg hfits]
      rw [Fits, length_append, not_le] at hfits
      exact .inr ⟨_, rfl, .inl ⟨rfl, hfits⟩⟩

/-- A line that can be added to a draft can be added to it behind another one, unless its label is
taken or it gets too long. -/
theorem Joinable.addTokens (hjoin : a.Joinable b) (h : b.addTokens line tokens = .ok b') :
    a.Joins b' r ((a.append b r).addTokens (r.line line) (tokens.map (Token.relocate r))) := by
  have hsplit := splitDeclaration_map (Token.kind_relocate r) tokens
  rcases addTokens_cases h with
    ⟨hnone, hstatement⟩ | ⟨word, colon, rest, label, _, hsome, hlabel, hfree, hstatement⟩
  · rw [hnone] at hsplit
    rw [Draft.addTokens, hsplit]
    exact hjoin.addStatement hstatement
  · rw [hsome] at hsplit
    rw [Draft.addTokens, hsplit]
    dsimp only [Option.map]
    rw [Token.text_relocate, hlabel]
    dsimp only [declare]
    split_ifs with hdeclared
    · obtain ⟨x, hx, hfolded⟩ := (declares_append.mp hdeclared).resolve_right hfree
      have hmem : (label, b.cells.length) ∈ b'.labels :=
        (extends_of_addStatement hstatement).labels
          (List.mem_append_right _ (List.mem_singleton_self _))
      exact .inr ⟨_, rfl, .inr ⟨x, hx, _, hmem, hfolded, rfl⟩⟩
    · rw [declares_append, not_or] at hdeclared
      have hlabelled : a.Joinable (b.withLabel label) := by
        refine ⟨fun x hx y hy => ?_, hjoin.fits⟩
        rcases List.mem_append.mp hy with hy | hy
        · exact hjoin.distinct x hx y hy
        · rw [List.mem_singleton.mp hy]
          exact fun hfolded => hdeclared.1 ⟨x, hx, hfolded⟩
      have hstep := hlabelled.addStatement (r := r) hstatement
      rw [← withLabel_append] at hstep
      exact hstep

/-! ### All lines -/

theorem Joinable.foldlM (hjoin : a.Joinable b) {lines : List SourceLine} (number bytes : ℕ)
    (h : lines.foldlM addLine b = .ok b') :
    a.Joins b' (.behind number bytes)
      ((lines.map (SourceLine.relocate (.behind number bytes))).foldlM addLine
        (a.append b (.behind number bytes))) := by
  induction lines generalizing b with
  | nil =>
    obtain rfl := Except.ok.inj h
    exact .inl ⟨hjoin, rfl⟩
  | cons line lines ih =>
    rw [List.foldlM_cons] at h
    obtain ⟨middle, hmiddle, hrest⟩ := bind_ok_iff.mp h
    have hline := hjoin.addTokens (r := .behind number bytes) hmiddle
    rw [← SourceLine.tokens_behind] at hline
    rw [List.map_cons, List.foldlM_cons]
    rcases hline with ⟨hmiddleJoin, hok⟩ | ⟨error, herror, hconflict⟩
    · rw [show (a.append b (.behind number bytes)).addLine (line.relocate (.behind number bytes)) =
        .ok (a.append middle (.behind number bytes)) from hok]
      exact ih hmiddleJoin hrest
    · rw [show (a.append b (.behind number bytes)).addLine (line.relocate (.behind number bytes)) =
        .error error from herror]
      exact .inr ⟨error, rfl, hconflict.mono (extends_of_foldlM hrest)⟩

lemma length_le_of_ofSource {source : List Char} (h : Draft.ofSource source = .ok a) :
    a.cells.length ≤ 256 := by
  rw [← String.toList_ofList (l := source)] at h
  obtain ⟨clauses, _, hrepresents⟩ := exists_reads_of_ofSource h
  rw [hrepresents.length_cells]
  exact hrepresents.fits

lemma joins_ofSource {first second : List Char} (ha : Draft.ofSource first = .ok a)
    (hb : Draft.ofSource second = .ok b) :
    a.Joins b (.behind (splitLines first).length (byteLength first + 1))
      (Draft.ofSource (first ++ '\n' :: second)) := by
  have hempty : a.Joinable empty := ⟨by simp [empty], length_le_of_ofSource ha⟩
  have happend : ∀ r, a.append empty r = a := fun r => by simp [append, empty]
  have hlines : SourceLine.locate (splitLines first).length (byteLength first + 1)
      (splitLines second) = (SourceLine.ofSource second).map
        (SourceLine.relocate (.behind (splitLines first).length (byteLength first + 1))) := by
    rw [SourceLine.ofSource, ← SourceLine.locate_behind, Nat.zero_add, Nat.zero_add]
  have hfold := hempty.foldlM (splitLines first).length (byteLength first + 1) hb
  rw [happend] at hfold
  rw [Draft.ofSource] at ha
  rw [Draft.ofSource, SourceLine.ofSource_append, List.foldlM_append, ha, hlines]
  exact hfold

/-- Two sources that make drafts make, one behind the other, the drafts one behind the other: cells
and tables of the second follow those of the first, and its places move by the lines and bytes in
front. There is no other draft, and if the two do not go together the error is that a label is
declared twice or that the program is too large. -/
theorem ofSource_append_newline {first second : String} {a b : Draft}
    (ha : Draft.ofSource first.toList = .ok a) (hb : Draft.ofSource second.toList = .ok b) :
    (a.Joinable b → Draft.ofSource (first ++ "\n" ++ second).toList = .ok
      (a.append b (.behind (splitLines first.toList).length (first.utf8ByteSize + 1)))) ∧
    (¬ a.Joinable b → ∃ error, Draft.ofSource (first ++ "\n" ++ second).toList = .error error ∧
      a.Conflict b error.kind) := by
  have hsource : (first ++ "\n" ++ second).toList = first.toList ++ '\n' :: second.toList := by
    simp
  have hbytes : first.utf8ByteSize = byteLength first.toList := by
    rw [← utf8ByteSize_ofList, String.ofList_toList]
  rw [hsource, hbytes]
  rcases joins_ofSource ha hb with ⟨hjoin, hok⟩ | ⟨error, herror, hconflict⟩
  · exact ⟨fun _ => hok, fun hnot => absurd hjoin hnot⟩
  · exact ⟨fun hjoin => absurd hjoin hconflict.not_joinable,
      fun _ => ⟨error, herror, hconflict⟩⟩

/-- A source that ends in a label without a statement, behind it one that goes with it and one that
does not. References reach across the seam, and the places of the second source move. -/
theorem ofSource_append_newline_sample :
    let x : Label := ⟨['x'], rfl⟩
    let capital : Label := ⟨['X'], rfl⟩
    let other : Label := ⟨['.', 'y'], rfl⟩
    let first : Draft := ⟨[.byte 11, .reference ⟨other, 0, ⟨3, 2⟩⟩], [(0, 0)], [(x, 2)]⟩
    Draft.ofSource "JP .y\nx:".toList = .ok first ∧
      Draft.ofSource ".y: INC [x]".toList =
        .ok ⟨[.byte 7, .reference ⟨x, 0, ⟨8, 3⟩⟩], [(0, 0)], [(other, 0)]⟩ ∧
      Draft.ofSource "JP .y\nx:\n.y: INC [x]".toList =
        .ok ⟨[.byte 11, .reference ⟨other, 0, ⟨3, 2⟩⟩, .byte 7, .reference ⟨x, 2, ⟨17, 3⟩⟩],
          [(0, 0), (2, 2)], [(x, 2), (other, 2)]⟩ ∧
      Draft.ofSource "X:".toList = .ok ⟨[], [], [(capital, 0)]⟩ ∧
      ∃ error, Draft.ofSource "JP .y\nx:\nX:".toList = .error error ∧
        first.Conflict ⟨[], [], [(capital, 0)]⟩ error.kind := by
  intro x capital other first
  have hfirst : Draft.ofSource "JP .y\nx:".toList = .ok first := by decide +kernel
  have hsecond : Draft.ofSource ".y: INC [x]".toList =
      .ok ⟨[.byte 7, .reference ⟨x, 0, ⟨8, 3⟩⟩], [(0, 0)], [(other, 0)]⟩ := by decide +kernel
  have hcapital : Draft.ofSource "X:".toList = .ok ⟨[], [], [(capital, 0)]⟩ := by decide +kernel
  have hjoin : first.Joinable ⟨[.byte 7, .reference ⟨x, 0, ⟨8, 3⟩⟩], [(0, 0)], [(other, 0)]⟩ :=
    ⟨by decide, by decide⟩
  have hnot : ¬ first.Joinable ⟨[], [], [(capital, 0)]⟩ := fun h =>
    h.distinct (x, 2) List.mem_cons_self (capital, 0) List.mem_cons_self (by decide)
  exact ⟨hfirst, hsecond, (ofSource_append_newline hfirst hsecond).1 hjoin, hcapital,
    (ofSource_append_newline hfirst hcapital).2 hnot⟩

end Draft

end Octet
