/-!
# Registers

An instruction names a register by a byte: 0 to 3 are general purpose, 4 is the stack pointer.
-/
namespace Octet

inductive Register where
  | general (index : Fin 4)
  | stackPointer
  deriving DecidableEq, Repr

def Register.ofByte? (byte : UInt8) : Option Register :=
  if h : byte.toNat < 4 then some (.general ⟨byte.toNat, h⟩)
  else if byte = 4 then some .stackPointer
  else none

theorem Register.ofByte?_eq_none_iff {byte : UInt8} :
    Register.ofByte? byte = none ↔ 4 < byte.toNat := by
  unfold Register.ofByte?
  split
  · simp only [reduceCtorEq, false_iff]
    omega
  · split
    · next h => simp [h]
    · next h =>
      rw [← UInt8.toNat_inj] at h
      simp only [UInt8.reduceToNat] at h
      simp only [true_iff]
      omega

end Octet
