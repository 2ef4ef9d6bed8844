import Octet.Proofs.Reachable

/-!
# Loading

An image that fits is found in the first cells after loading, and all cells behind it are zero.
Everything else is as after a reset.
-/
namespace Octet

variable {image : List UInt8}

/-- Memory that holds an image and then zeros, and nothing has been touched in it. -/
structure Memory.Holds (memory : Memory) (image : List UInt8) : Prop where
  cells : memory.cells.toList = image ++ List.replicate (256 - image.length) 0
  untouched : memory.lastAccess = none

theorem Machine.load_eq (h : image.length ≤ 256) : ∃ memory : Memory, memory.Holds image ∧
    load image = (.ok (), { initial with memory }) := by
  unfold load reload Memory.loadImage
  rw [if_pos h]
  refine ⟨_, ⟨?_, rfl⟩, rfl⟩
  apply List.ext_getElem
  · simp only [Vector.length_toList, List.length_append, List.length_replicate]
    omega
  · intro i hi _
    rw [List.getElem_append]
    split_ifs with himage
    · simp [himage]
    · simp [himage, initial, Memory.initial, Memory.cell]

/-- A byte of the image, or zero behind it. -/
lemma Memory.Holds.byteAt {memory : Memory} (h : memory.Holds image) (address : ℕ) :
    memory.byteAt address = (image[address]?).getD 0 := by
  rw [Memory.byteAt, ← Vector.getElem?_toList, h.cells, List.getElem?_append]
  split_ifs with himage
  · rfl
  · rw [List.getElem?_eq_none (not_lt.mp himage), List.getElem?_replicate]
    split_ifs
    · rfl
    · rfl

end Octet
