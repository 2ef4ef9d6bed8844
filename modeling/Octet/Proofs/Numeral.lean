import Octet.Source.Label
import Octet.Source.Numeral
import Mathlib.Tactic

/-!
# Numerals and labels

A label starts with a dot or a letter, and neither is a digit in a base up to ten. Larger bases need
a marker in front, which starts with a digit. So no text is both a label and a numeral.
-/
namespace Octet.Numeral

theorem isAlpha_iff_toNat {c : Char} :
    c.isAlpha = true ↔ (65 ≤ c.toNat ∧ c.toNat ≤ 90) ∨ (97 ≤ c.toNat ∧ c.toNat ≤ 122) := by
  delta Char.isAlpha Char.isUpper Char.isLower
  simp [UInt32.le_iff_toNat_le, ← Char.toNat_val]

/-- The characters that labels start with. -/
def StartsLabel (c : Char) : Prop := c = '.' ∨ c.isAlpha = true

lemma StartsLabel.ne {c : Char} (hc : StartsLabel c) : c ≠ '0' ∧ c ≠ '-' ∧ c ≠ '+' := by
  refine ⟨?_, ?_, ?_⟩
  all_goals
    rintro rfl
    exact absurd hc (by unfold StartsLabel; decide)

/-- Letters are worth ten and more, and a dot is worth nothing. -/
lemma digitValue?_of_startsLabel {base : ℕ} (hbase : base ≤ 10) {c : Char} (hc : StartsLabel c) :
    digitValue? base c = none := by
  rcases hc with rfl | hc
  · simp [digitValue?]
  · rw [isAlpha_iff_toNat] at hc
    simp only [digitValue?, Char.le_def, UInt32.le_iff_toNat_le, Char.toNat_val, Char.reduceToNat]
    rw [if_neg (by omega)]
    split_ifs with hlower hupper
    · rw [Option.filter_some, if_neg (by simp only [decide_eq_true_eq]; omega)]
    · rw [Option.filter_some, if_neg (by simp only [decide_eq_true_eq]; omega)]
    · rfl

lemma signed?_of_startsLabel {base : ℕ} (hbase : base ≤ 10) {c : Char} (hc : StartsLabel c)
    (cs : List Char) : signed? base (c :: cs) = none := by
  obtain ⟨_, hminus, hplus⟩ := hc.ne
  have hdigits : leadingDigits base (c :: cs) = [] := by
    simp only [leadingDigits, digitValue?_of_startsLabel hbase hc]
  unfold signed?
  split
  · next heq => exact absurd (List.cons.inj heq).1 hminus
  · next heq => exact absurd (List.cons.inj heq).1 hplus
  · simp only [unsigned?, hdigits, Option.map_none]

lemma signed?_dropLast_of_startsLabel {base : ℕ} (hbase : base ≤ 10) {c : Char}
    (hc : StartsLabel c) (cs : List Char) : signed? base (c :: cs).dropLast = none := by
  cases cs with
  | nil => rfl
  | cons d cs => exact signed?_of_startsLabel hbase hc _

theorem value?_of_startsLabel {c : Char} (hc : StartsLabel c) (cs : List Char) :
    value? (c :: cs) = none := by
  have hzero := hc.ne.1
  unfold value? split?
  split
  · next heq => exact absurd (List.cons.inj heq).1 hzero
  · next heq => exact absurd (List.cons.inj heq).1 hzero
  · split_ifs
    · exact signed?_dropLast_of_startsLabel (by decide) hc cs
    · exact signed?_dropLast_of_startsLabel (by decide) hc cs
    · exact signed?_of_startsLabel (by decide) hc cs
    · rfl

/-- No text is both a label and a numeral. -/
theorem value?_of_isLabel {cs : List Char} (h : isLabel cs = true) : value? cs = none := by
  cases cs with
  | nil => rfl
  | cons c cs =>
    simp only [isLabel, Bool.and_eq_true, Bool.or_eq_true, beq_iff_eq] at h
    exact value?_of_startsLabel h.1 cs

end Octet.Numeral
