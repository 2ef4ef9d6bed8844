import Octet.Memory
import Octet.Proofs.Results
import Mathlib.Tactic

/-!
# Copies of a block

What a copy does for any two addresses and any count. On a machine these are words of 64 bits, and a
sum of two words need not be a word. So the copy is told once more on words, in place and step by
step, where every sum and every move has to stay in its range. The two agree on all words: no sum
leaves its range, and a copy that fails has changed nothing.
-/
namespace Octet

open Results

/-- Why work on words ends early. -/
inductive WordFailure where
  | refused (error : MemoryError)
  /-- A sum or a difference is no word, or a block does not lie in memory. -/
  | trapped
  deriving DecidableEq

/-! ### Copies on words -/

namespace Words

open Memory (HasRange Overlap byteAt_of_lt)

/-- Work in place. What it has done before it fails stays done. -/
abbrev Work := EStateM WordFailure Memory

/-- The sum of two words, if it is a word. -/
def sum? (a b : UInt64) : Option UInt64 :=
  if a.toNat + b.toNat < 2 ^ 64 then some (a + b) else none

def plus (a b : UInt64) : Work UInt64 :=
  match sum? a b with
  | some sum => pure sum
  | none => throw .trapped

def minus (a b : UInt64) : Work UInt64 := if b ≤ a then pure (a - b) else throw .trapped

def refuse (error : MemoryError) : Work Unit := throw (.refused error)

/-- This sum may be too large for a word, and then it is no address either. -/
def checkRange (address count : UInt64) : Work Unit :=
  if address < 256 ∧ (sum? address count).any (· ≤ 256) then pure ()
  else refuse (.accessViolation address.toNat)

/-- Whether two ranges share a cell. Each test is made only if those in front of it hold. -/
def sharesCell (target source count : UInt64) : Work Bool :=
  if 0 < count then do
    if source < (← plus target count) then return target < (← plus source count)
    return false
  else return false

/-- Move the cells from `start` up to `stop`, all at once. -/
def moveBlock (target start stop : UInt64) : Work Unit := do
  let count ← minus stop start
  if stop ≤ 256 ∧ target ≤ (← minus 256 count) then
    modify fun memory =>
      { memory with
        cells := Vector.ofFn fun a : Address =>
          if target.toNat ≤ a.val ∧ a.val < target.toNat + count.toNat then
            memory.byteAt (start.toNat + (a.val - target.toNat))
          else memory.cell a }
  else throw .trapped

def touch (address : UInt64) : Work Unit :=
  if h : address.toNat < 256 then modify (·.touch ⟨address.toNat, h⟩) else throw .trapped

def copy (target source count : UInt64) : Work Unit := do
  checkRange target count
  checkRange source count
  if ← sharesCell target source count then
    refuse (.overlappingCopy target.toNat source.toNat count.toNat)
  else
    moveBlock target source (← plus source count)
    if 0 < count then touch (← minus (← plus target count) 1)

variable {memory memory' : Memory} {target source count : UInt64}

lemma run_plus {a b : UInt64} (h : a.toNat + b.toNat ≤ 256) (memory : Memory) :
    (plus a b).run memory = .ok (a + b) memory := by
  rw [plus, sum?, if_pos (by omega)]
  rfl

lemma toNat_plus {a b : UInt64} (h : a.toNat + b.toNat ≤ 256) :
    (a + b).toNat = a.toNat + b.toNat := by
  rw [UInt64.toNat_add, Nat.mod_eq_of_lt (by omega)]

lemma run_minus {a b : UInt64} (h : b ≤ a) (memory : Memory) :
    (minus a b).run memory = .ok (a - b) memory := by
  rw [minus, if_pos h]
  rfl

lemma any_sum?_le {a b : UInt64} : (sum? a b).any (· ≤ 256) = true ↔ a.toNat + b.toNat ≤ 256 := by
  unfold sum?
  split_ifs with hword
  · rw [Option.any_some, decide_eq_true_eq, UInt64.le_iff_toNat_le, UInt64.toNat_add,
      Nat.mod_eq_of_lt hword]
    rfl
  · simp only [Option.any_none, Bool.false_eq_true, false_iff]
    omega

lemma run_checkRange (h : HasRange target.toNat count.toNat) (memory : Memory) :
    (checkRange target count).run memory = .ok () memory := by
  rw [checkRange, if_pos ⟨UInt64.lt_iff_toNat_lt.mpr h.1, any_sum?_le.mpr h.2⟩]
  rfl

lemma run_checkRange_of_not (h : ¬ HasRange target.toNat count.toNat) (memory : Memory) :
    (checkRange target count).run memory =
      .error (.refused (.accessViolation target.toNat)) memory := by
  rw [checkRange, if_neg fun hrange =>
    h ⟨UInt64.lt_iff_toNat_lt.mp hrange.1, any_sum?_le.mp hrange.2⟩]
  rfl

/-- Between two ranges of memory all sums are small. -/
lemma run_sharesCell (htarget : HasRange target.toNat count.toNat)
    (hsource : HasRange source.toNat count.toNat) (memory : Memory) :
    (sharesCell target source count).run memory =
      .ok (decide (Overlap target.toNat source.toNat count.toNat)) memory := by
  have hoverlap : Overlap target.toNat source.toNat count.toNat ↔
      0 < count ∧ source < target + count ∧ target < source + count := by
    simp only [Overlap, UInt64.lt_iff_toNat_lt, toNat_plus htarget.2, toNat_plus hsource.2]
    rfl
  unfold sharesCell
  by_cases hcount : 0 < count
  · rw [if_pos hcount, run_bind_ok (run_plus htarget.2 memory)]
    by_cases hbelow : source < target + count
    · rw [if_pos hbelow, run_bind_ok (run_plus hsource.2 memory)]
      simp [hoverlap, hcount, hbelow]
    · rw [if_neg hbelow]
      simp [hoverlap, hbelow]
  · rw [if_neg hcount]
    simp [hoverlap, hcount]

/-- A block in memory is moved to a place in memory. -/
lemma run_moveBlock (htarget : HasRange target.toNat count.toNat)
    (hsource : HasRange source.toNat count.toNat) (memory : Memory) :
    (moveBlock target source (source + count)).run memory =
      .ok () { memory with
        cells := memory.copiedCells target.toNat source.toNat count.toNat hsource } := by
  obtain ⟨-, htargetEnd⟩ := htarget
  obtain ⟨-, hsourceEnd⟩ := id hsource
  have hstop := toNat_plus hsourceEnd
  have hle : source ≤ source + count := UInt64.le_iff_toNat_le.mpr (by omega)
  have hlength : source + count - source = count := by
    rw [← UInt64.toNat_inj, UInt64.toNat_sub_of_le _ _ hle, hstop, Nat.add_sub_cancel_left]
  have hcount : count ≤ 256 := UInt64.le_iff_toNat_le.mpr (by change _ ≤ 256; omega)
  have hplace : source + count ≤ 256 ∧ target ≤ 256 - count := by
    rw [UInt64.le_iff_toNat_le, UInt64.le_iff_toNat_le, UInt64.toNat_sub_of_le _ _ hcount, hstop]
    change _ ≤ 256 ∧ _ ≤ 256 - _
    omega
  rw [moveBlock, run_bind_ok (run_minus hle memory), hlength, run_bind_ok (run_minus hcount memory),
    if_pos hplace]
  have hcells : (Vector.ofFn fun a : Address =>
      if target.toNat ≤ a.val ∧ a.val < target.toNat + count.toNat then
        memory.byteAt (source.toNat + (a.val - target.toNat))
      else memory.cell a) =
        memory.copiedCells target.toNat source.toNat count.toNat hsource := by
    unfold Memory.copiedCells
    congr 1
    funext a
    by_cases ha : target.toNat ≤ a.val ∧ a.val < target.toNat + count.toNat
    · rw [if_pos ha, dif_pos ha, byteAt_of_lt]
    · rw [if_neg ha, dif_neg ha]
  rw [← hcells]
  rfl

lemma run_touch {address : UInt64} (h : address.toNat < 256) (memory : Memory) :
    (touch address).run memory = .ok () (memory.touch ⟨address.toNat, h⟩) := by
  rw [touch, dif_pos h]
  rfl

/-- On words a copy does what it does on numbers, in place. -/
theorem run_copy (target source count : UInt64) (memory : Memory) :
    (copy target source count).run memory =
      match memory.copy target.toNat source.toNat count.toNat with
      | .ok memory' => .ok () memory'
      | .error error => .error (.refused error) memory := by
  unfold copy Memory.copy
  by_cases htarget : HasRange target.toNat count.toNat
  swap
  · rw [dif_neg htarget, run_bind_error (run_checkRange_of_not htarget memory)]
  rw [dif_pos htarget, run_bind_ok (run_checkRange htarget memory)]
  by_cases hsource : HasRange source.toNat count.toNat
  swap
  · rw [dif_neg hsource, run_bind_error (run_checkRange_of_not hsource memory)]
  rw [dif_pos hsource, run_bind_ok (run_checkRange hsource memory),
    run_bind_ok (run_sharesCell htarget hsource memory)]
  by_cases hoverlap : Overlap target.toNat source.toNat count.toNat
  · rw [if_pos hoverlap, if_pos (decide_eq_true hoverlap)]
    rfl
  rw [if_neg hoverlap, if_neg (by simpa using hoverlap), run_bind_ok (run_plus hsource.2 memory),
    run_bind_ok (run_moveBlock htarget hsource memory)]
  dsimp only
  by_cases hcount : 0 < count
  · have hpos : 0 < count.toNat := UInt64.lt_iff_toNat_lt.mp hcount
    have hone : (1 : UInt64) ≤ target + count := by
      rw [UInt64.le_iff_toNat_le, toNat_plus htarget.2]
      change 1 ≤ _
      omega
    have hlast : (target + count - 1).toNat = target.toNat + count.toNat - 1 := by
      rw [UInt64.toNat_sub_of_le _ _ hone, toNat_plus htarget.2]
      rfl
    have haddress : (target + count - 1).toNat < 256 := by
      have hend := htarget.2
      omega
    rw [if_pos hcount, dif_pos hpos, run_bind_ok (run_plus htarget.2 _),
      run_bind_ok (run_minus hone _), run_touch haddress]
    simp only [Memory.touch, hlast]
  · have hpos : ¬ 0 < count.toNat := fun h => hcount (UInt64.lt_iff_toNat_lt.mpr h)
    rw [if_neg hcount, dif_neg hpos]
    rfl

end Words

/-! ### Copies on numbers -/

namespace Memory

/-- What a copy leaves: the block at its new place, and the last cell of it as the cell that was
touched last. -/
structure BlockCopied (memory memory' : Memory) (target source count : ℕ) : Prop where
  moved : ∀ i < count, memory'.byteAt (target + i) = memory.byteAt (source + i)
  kept : ∀ a, ¬ (target ≤ a ∧ a < target + count) → memory'.byteAt a = memory.byteAt a
  note : memory'.lastAccess.map Fin.val =
    if count = 0 then memory.lastAccess.map Fin.val else some (target + count - 1)

/-- A memory is told from its bytes and its note. -/
lemma ext_byteAt {m n : Memory} (bytes : ∀ a, m.byteAt a = n.byteAt a)
    (note : m.lastAccess.map Fin.val = n.lastAccess.map Fin.val) : m = n := by
  refine ext_cell (fun a => ?_) (Option.map_injective Fin.val_injective note)
  rw [← byteAt_of_lt m a.isLt, ← byteAt_of_lt n a.isLt, bytes]

variable {memory memory' : Memory} {target source count : ℕ}

lemma byteAt_copiedCells (memory : Memory) (note : Option Address) (h : HasRange source count)
    (a : ℕ) : byteAt ⟨memory.copiedCells target source count h, note⟩ a =
      if a < 256 ∧ target ≤ a ∧ a < target + count then memory.byteAt (source + (a - target))
      else memory.byteAt a := by
  by_cases ha : a < 256
  · rw [byteAt_of_lt _ ha, byteAt_of_lt memory ha]
    simp only [cell, copiedCells, ha, true_and, Fin.getElem_fin, Vector.getElem_ofFn]
    split_ifs with hrange
    · exact (byteAt_of_lt memory (by have hend := h.2; omega)).symm
    · rfl
  · rw [if_neg fun hlt => ha hlt.1]
    simp [byteAt, ha]

/-- The destination is looked at first, then the source, and then both together. -/
theorem copy_error_iff {error : MemoryError} : memory.copy target source count = .error error ↔
    ¬ (HasRange target count ∧ HasRange source count ∧ ¬ Overlap target source count) ∧
      error = if ¬ HasRange target count then .accessViolation target
        else if ¬ HasRange source count then .accessViolation source
        else .overlappingCopy target source count := by
  unfold copy
  split_ifs <;> simp_all [eq_comm]

/-- There is one memory that a copy can leave. -/
lemma BlockCopied.unique {m n : Memory} (hm : BlockCopied memory m target source count)
    (hn : BlockCopied memory n target source count) : m = n := by
  refine ext_byteAt (fun a => ?_) (hm.note.trans hn.note.symm)
  by_cases ha : target ≤ a ∧ a < target + count
  · obtain ⟨i, rfl⟩ := Nat.exists_eq_add_of_le ha.1
    rw [hm.moved i (by omega), hn.moved i (by omega)]
  · rw [hm.kept a ha, hn.kept a ha]

lemma exists_blockCopied (htarget : HasRange target count) (hsource : HasRange source count)
    (hapart : ¬ Overlap target source count) (memory : Memory) :
    ∃ memory', memory.copy target source count = .ok memory' ∧
      BlockCopied memory memory' target source count := by
  rw [copy, dif_pos htarget, dif_pos hsource, if_neg hapart]
  refine ⟨_, rfl, fun i hi => ?_, fun a ha => ?_, ?_⟩
  · have hend := htarget.2
    rw [byteAt_copiedCells, if_pos (by omega), Nat.add_sub_cancel_left]
  · rw [byteAt_copiedCells, if_neg fun h => ha h.2]
  · rcases Nat.eq_zero_or_pos count with hcount | hcount
    · rw [if_pos hcount, dif_neg (by omega)]
    · rw [if_neg (by omega), dif_pos hcount]
      rfl

/-- A copy succeeds exactly on two ranges of memory that share no cell. -/
theorem copy_ok_iff : memory.copy target source count = .ok memory' ↔
    (HasRange target count ∧ HasRange source count ∧ ¬ Overlap target source count) ∧
      BlockCopied memory memory' target source count := by
  constructor
  · intro hok
    have hranges : HasRange target count ∧ HasRange source count ∧
        ¬ Overlap target source count := by
      by_contra hnot
      rw [copy_error_iff.mpr ⟨hnot, rfl⟩] at hok
      cases hok
    obtain ⟨other, hother, hcopied⟩ :=
      exists_blockCopied hranges.1 hranges.2.1 hranges.2.2 memory
    rw [hok] at hother
    obtain rfl := Except.ok.inj hother
    exact ⟨hranges, hcopied⟩
  · rintro ⟨⟨htarget, hsource, hapart⟩, hcopied⟩
    obtain ⟨other, hother, hcopied'⟩ := exists_blockCopied htarget hsource hapart memory
    rw [hcopied.unique hcopied', hother]

/-- Two ranges of the same length share a cell unless they are empty or apart. -/
lemma not_overlap_iff : ¬ Overlap target source count ↔ count = 0 ∨
    ∀ a, ¬ ((target ≤ a ∧ a < target + count) ∧ source ≤ a ∧ a < source + count) := by
  rw [overlap_iff, not_exists]
  constructor
  · exact .inr
  · rintro (rfl | hapart)
    · omega
    · exact hapart

/-- A copy moves a block as a whole or not at all. It succeeds exactly if both ranges start and end
in memory and share no cell, and then nothing but the destination and the note of the last access is
changed. If it fails, the error tells the first of the three tests that fails, and memory is as it
was. Carried out in place on words of 64 bits, it does the same for all of them. -/
theorem copy_moves_block_or_nothing (memory : Memory) (target source count : UInt64) :
    let t := target.toNat
    let s := source.toNat
    let n := count.toNat
    let left := (Words.copy target source count).run memory
    ((∃ memory', memory.copy t s n = .ok memory') ↔
      t < 256 ∧ s < 256 ∧ t + n ≤ 256 ∧ s + n ≤ 256 ∧
        (n = 0 ∨ ∀ a, ¬ ((t ≤ a ∧ a < t + n) ∧ s ≤ a ∧ a < s + n))) ∧
    (∀ memory', memory.copy t s n = .ok memory' →
      BlockCopied memory memory' t s n ∧ left = .ok () memory') ∧
    (∀ error, memory.copy t s n = .error error →
      error = (if ¬ (t < 256 ∧ t + n ≤ 256) then .accessViolation t
        else if ¬ (s < 256 ∧ s + n ≤ 256) then .accessViolation s
        else .overlappingCopy t s n) ∧
      left = .error (.refused error) memory) := by
  dsimp only
  refine ⟨?_, fun memory' hok => ?_, fun error herror => ?_⟩
  · rw [← not_overlap_iff]
    constructor
    · rintro ⟨memory', hok⟩
      obtain ⟨⟨htarget, hsource, hapart⟩, -⟩ := copy_ok_iff.mp hok
      exact ⟨htarget.1, hsource.1, htarget.2, hsource.2, hapart⟩
    · rintro ⟨ht, hs, htarget, hsource, hapart⟩
      obtain ⟨memory', hok, -⟩ := exists_blockCopied ⟨ht, htarget⟩ ⟨hs, hsource⟩ hapart memory
      exact ⟨memory', hok⟩
  · refine ⟨(copy_ok_iff.mp hok).2, ?_⟩
    rw [Words.run_copy, hok]
  · refine ⟨(copy_error_iff.mp herror).2, ?_⟩
    rw [Words.run_copy, herror]

end Memory

end Octet
