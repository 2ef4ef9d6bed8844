import Octet.Proofs.Numeral

/-!
# Written numbers

Every number can be written in five formats, with zeros in front and digits in any letter case, and
is read as itself in each of them. The marker of a format is never taken for a digit, and a digit
never for a marker: hexadecimal digits may be `b` or `d`, but their marker stands in front and is
looked for first, and in no other format is a letter a digit.
-/
namespace Octet.Numeral

/-- The digits of a number in a base, in any letter case, behind any number of zeros. -/
def Digits (base n : ℕ) (cs : List Char) : Prop :=
  ∃ zeros, cs.map Char.toLower = List.replicate zeros '0' ++ Nat.toDigits base n

/-- The texts that a number can be written as. -/
inductive Writes (n : ℕ) : List Char → Prop
  | decimal {cs : List Char} (digits : Digits 10 n cs) : Writes n cs
  | marked {cs : List Char} (digits : Digits 10 n cs) : Writes n (cs ++ ['d'])
  | hexadecimal {cs : List Char} (digits : Digits 16 n cs) : Writes n ('0' :: 'x' :: cs)
  | octal {cs : List Char} (digits : Digits 8 n cs) : Writes n ('0' :: 'o' :: cs)
  | binary {cs : List Char} (digits : Digits 2 n cs) : Writes n (cs ++ ['b'])

lemma isDigit_iff_toNat {c : Char} : c.isDigit = true ↔ 48 ≤ c.toNat ∧ c.toNat ≤ 57 := by
  delta Char.isDigit
  simp [UInt32.le_iff_toNat_le, ← Char.toNat_val]

variable {base n d : ℕ} {c : Char} {cs : List Char}

/-! ### One digit -/

/-- The character is this digit, in either letter case. -/
def IsDigit (c : Char) (d : ℕ) : Prop := c.toLower = Nat.digitChar d

lemma toNat_toLower (c : Char) :
    c.toLower.toNat = if 65 ≤ c.toNat ∧ c.toNat ≤ 90 then c.toNat + 32 else c.toNat := by
  have hrange : (c.val ≥ 'A'.val ∧ c.val ≤ 'Z'.val) ↔ 65 ≤ c.toNat ∧ c.toNat ≤ 90 := by
    simp [UInt32.le_iff_toNat_le, ← Char.toNat_val]
  unfold Char.toLower
  split_ifs with hupper hnat hnat
  · rw [← Char.toNat_val, ← Char.toNat_val]
    rw [UInt32.toNat_add, Nat.mod_eq_of_lt]
    · rfl
    · rw [Char.toNat_val]
      simp
      omega
  · exact absurd (hrange.mp hupper) hnat
  · exact absurd (hrange.mpr hnat) hupper
  · rfl

lemma toNat_digitChar (hd : d < 16) :
    (Nat.digitChar d).toNat = if d < 10 then 48 + d else 87 + d := by
  interval_cases d <;> rfl

/-- The numbers of the characters that a digit is written as. -/
lemma IsDigit.toNat (h : IsDigit c d) (hd : d < 16) :
    (d < 10 ∧ c.toNat = 48 + d) ∨ (10 ≤ d ∧ (c.toNat = 87 + d ∨ c.toNat = 55 + d)) := by
  have hlower := toNat_digitChar hd
  rw [← h] at hlower
  rw [toNat_toLower] at hlower
  split_ifs at hlower <;> omega

lemma IsDigit.digitValue? (h : IsDigit c d) (hd : d < base) (hbase : base ≤ 16) :
    digitValue? base c = some d := by
  have hnat := h.toNat (by omega)
  simp only [Numeral.digitValue?, Char.le_def, UInt32.le_iff_toNat_le, Char.toNat_val,
    Char.reduceToNat]
  rcases hnat with ⟨hten, hnat⟩ | ⟨hten, hnat | hnat⟩
  · rw [if_pos (by omega), Option.filter_some, if_pos (by simp; omega)]
    congr 1
    omega
  · rw [if_neg (by omega), if_pos (by omega), Option.filter_some, if_pos (by simp; omega)]
    congr 1
    omega
  · rw [if_neg (by omega), if_neg (by omega), if_pos (by omega), Option.filter_some,
      if_pos (by simp; omega)]
    congr 1
    omega

/-! ### Digits -/

lemma magnitude_append (base : ℕ) (ds : List ℕ) (d : ℕ) :
    magnitude base (ds ++ [d]) = min (magnitude base ds * base + d) limit := by
  rw [magnitude, List.foldl_append, ← magnitude]
  rfl

lemma leadingDigits_eq {ds : List ℕ}
    (h : List.Forall₂ (fun c d => digitValue? base c = some d) cs ds) :
    leadingDigits base cs = ds := by
  induction h with
  | nil => rfl
  | cons hdigit _ ih => rw [leadingDigits, hdigit, ih]

lemma magnitude_zeros (base zeros : ℕ) : magnitude base (List.replicate zeros 0) = 0 := by
  induction zeros with
  | zero => rfl
  | succ zeros ih =>
    rw [List.replicate_succ', magnitude_append, ih]
    simp

lemma forall₂_zeros (hbase : 0 < base) (zeros : ℕ) :
    List.Forall₂ (fun c d => d < base ∧ c = Nat.digitChar d) (List.replicate zeros '0')
      (List.replicate zeros 0) := by
  induction zeros with
  | zero => exact .nil
  | succ zeros ih => exact .cons ⟨hbase, rfl⟩ ih

/-- The values of the digits of a number add up to it. -/
lemma exists_values (hbase : 1 < base) (zeros : ℕ) (hn : n ≤ limit) :
    ∃ ds, List.Forall₂ (fun c d => d < base ∧ c = Nat.digitChar d)
      (List.replicate zeros '0' ++ Nat.toDigits base n) ds ∧ magnitude base ds = n := by
  induction n using Nat.strongRecOn with
  | ind n ih =>
    by_cases hlt : n < base
    · rw [Nat.toDigits_of_lt_base hlt]
      refine ⟨List.replicate zeros 0 ++ [n], ?_, ?_⟩
      · exact List.rel_append (forall₂_zeros (by omega) zeros) (.cons ⟨hlt, rfl⟩ .nil)
      · rw [magnitude_append, magnitude_zeros]
        omega
    · rw [Nat.toDigits_of_base_le hbase (by omega)]
      obtain ⟨ds, hds, hmagnitude⟩ := ih (n / base) (Nat.div_lt_self (by omega) hbase)
        ((Nat.div_le_self n base).trans hn)
      refine ⟨ds ++ [n % base], ?_, ?_⟩
      · rw [← List.append_assoc]
        exact List.rel_append hds (.cons ⟨Nat.mod_lt _ (by omega), rfl⟩ .nil)
      · rw [magnitude_append, hmagnitude, Nat.div_add_mod', Nat.min_eq_left hn]

/-- What digits of a number are read as, and what each of them may be. -/
lemma Digits.exists_values (h : Digits base n cs) (hbase : 1 < base) (hn : n ≤ limit) :
    ∃ ds, List.Forall₂ (fun c d => d < base ∧ IsDigit c d) cs ds ∧ magnitude base ds = n := by
  obtain ⟨zeros, hcs⟩ := h
  obtain ⟨ds, hds, hmagnitude⟩ := Numeral.exists_values hbase zeros hn
  rw [← hcs, List.forall₂_map_left_iff] at hds
  exact ⟨ds, hds, hmagnitude⟩

lemma Digits.ne_nil (h : Digits base n cs) : cs ≠ [] := by
  rintro rfl
  obtain ⟨zeros, hcs⟩ := h
  exact Nat.toDigits_ne_nil (List.append_eq_nil_iff.mp hcs.symm).2

/-- The digits alone are read as the number. -/
theorem Digits.unsigned?_eq (h : Digits base n cs) (hbase : 1 < base) (hbase' : base ≤ 16)
    (hn : n ≤ limit) : unsigned? base cs = some n := by
  obtain ⟨ds, hds, hmagnitude⟩ := h.exists_values hbase hn
  have hleading : leadingDigits base cs = ds :=
    leadingDigits_eq (hds.imp fun c d hdigit => hdigit.2.digitValue? hdigit.1 hbase')
  rw [unsigned?, hleading]
  cases hds with
  | nil => exact absurd rfl h.ne_nil
  | cons => exact congrArg some hmagnitude

lemma Digits.exists_isDigit (h : Digits base n cs) (hbase : 1 < base) (hn : n ≤ limit)
    (hc : c ∈ cs) : ∃ d < base, IsDigit c d := by
  obtain ⟨ds, hds, _⟩ := h.exists_values hbase hn
  obtain ⟨i, hi, rfl⟩ := List.getElem_of_mem hc
  obtain ⟨hlength, hdigits⟩ := List.forall₂_iff_get.mp hds
  exact ⟨_, hdigits i hi (hlength ▸ hi)⟩

lemma Digits.isAlphanum (h : Digits base n cs) (hbase : 1 < base) (hbase' : base ≤ 16)
    (hn : n ≤ limit) (hc : c ∈ cs) : c.isAlphanum = true := by
  obtain ⟨d, hd, hdigit⟩ := h.exists_isDigit hbase hn hc
  have hnat := hdigit.toNat (by omega)
  rw [Char.isAlphanum, Bool.or_eq_true, isAlpha_iff_toNat, isDigit_iff_toNat]
  omega

lemma Digits.isDigit (h : Digits base n cs) (hbase : 1 < base) (hbase' : base ≤ 10)
    (hn : n ≤ limit) (hc : c ∈ cs) : c.isDigit = true := by
  obtain ⟨d, hd, hdigit⟩ := h.exists_isDigit hbase hn hc
  have hnat := hdigit.toNat (by omega)
  rw [isDigit_iff_toNat]
  omega

/-- No sign stands in front of digits. -/
theorem Digits.signed?_eq (h : Digits base n cs) (hbase : 1 < base) (hbase' : base ≤ 16)
    (hn : n ≤ limit) : signed? base cs = some (n : ℤ) := by
  have hvalue := h.unsigned?_eq hbase hbase' hn
  have hsign : ∀ c ∈ cs, c ≠ '-' ∧ c ≠ '+' := fun c hc => by
    have hc := h.isAlphanum hbase hbase' hn hc
    constructor <;> rintro rfl <;> exact absurd hc (by decide)
  unfold signed?
  split
  · exact absurd rfl (hsign _ List.mem_cons_self).1
  · exact absurd rfl (hsign _ List.mem_cons_self).2
  · rw [hvalue]
    rfl

/-! ### Formats -/

/-- Digits of a base up to ten hold none of the letters that mark a format. -/
lemma Digits.not_mem (h : Digits base n cs) (hbase : 1 < base) (hbase' : base ≤ 10)
    (hn : n ≤ limit) (hc : c.isDigit = false) : c ∉ cs := fun hmem => by
  rw [h.isDigit hbase hbase' hn hmem] at hc
  cases hc

lemma split?_of_not_mem (hx : 'x' ∉ cs) (ho : 'o' ∉ cs) : split? cs =
    if cs.getLast? = some 'b' then some (2, cs.dropLast)
    else if cs.getLast? = some 'd' then some (10, cs.dropLast)
    else if isDecimal cs then some (10, cs)
    else none := by
  unfold split?
  split
  · simp at hx
  · simp at ho
  · rfl

/-- A number that is written in any of the formats is read as itself. -/
theorem Writes.value?_eq (h : Writes n cs) (hn : n ≤ limit) : value? cs = some (n : ℤ) := by
  cases h with
  | decimal digits =>
    have hmem {c : Char} : c.isDigit = false → c ∉ cs :=
      digits.not_mem (by decide) (by decide) hn
    have hdecimal : isDecimal cs = true := by
      have hall : cs.all Char.isDigit = true :=
        List.all_eq_true.mpr fun c hc => digits.isDigit (by decide) (by decide) hn hc
      unfold isDecimal
      split
      · exact absurd List.mem_cons_self (hmem rfl)
      · exact absurd List.mem_cons_self (hmem rfl)
      · simpa [hall] using digits.ne_nil
    have hlast {c : Char} (hc : c.isDigit = false) : cs.getLast? ≠ some c := fun hlast =>
      hmem hc (List.mem_of_getLast? hlast)
    rw [value?, split?_of_not_mem (hmem rfl) (hmem rfl), if_neg (hlast rfl), if_neg (hlast rfl),
      if_pos hdecimal]
    exact digits.signed?_eq (by decide) (by decide) hn
  | @marked cs digits =>
    have hmem {c : Char} (hc : c.isDigit = false) (hd : c ≠ 'd') : c ∉ cs ++ ['d'] := by
      simpa [hd] using digits.not_mem (by decide) (by decide) hn hc
    rw [value?, split?_of_not_mem (hmem rfl (by decide)) (hmem rfl (by decide))]
    simpa using digits.signed?_eq (by decide) (by decide) hn
  | hexadecimal digits => exact digits.signed?_eq (by decide) (by decide) hn
  | octal digits => exact digits.signed?_eq (by decide) (by decide) hn
  | @binary cs digits =>
    have hmem {c : Char} (hc : c.isDigit = false) (hb : c ≠ 'b') : c ∉ cs ++ ['b'] := by
      simpa [hb] using digits.not_mem (by decide) (by decide) hn hc
    rw [value?, split?_of_not_mem (hmem rfl (by decide)) (hmem rfl (by decide))]
    simpa using digits.signed?_eq (by decide) (by decide) hn

/-- A written number is one word of letters and digits. -/
lemma Writes.isAlphanum (h : Writes n cs) (hn : n ≤ limit) : ∀ c ∈ cs, c.isAlphanum = true := by
  cases h with
  | decimal digits => exact fun c hc => digits.isAlphanum (by decide) (by decide) hn hc
  | marked digits | binary digits =>
    intro c hc
    rcases List.mem_append.mp hc with hc | hc
    · exact digits.isAlphanum (by decide) (by decide) hn hc
    · rw [List.mem_singleton.mp hc]
      rfl
  | hexadecimal digits | octal digits =>
    refine List.forall_mem_cons.mpr ⟨rfl, List.forall_mem_cons.mpr ⟨rfl, fun c hc => ?_⟩⟩
    exact digits.isAlphanum (by decide) (by decide) hn hc

lemma Writes.ne_nil (h : Writes n cs) : cs ≠ [] := by
  cases h with
  | decimal digits => exact digits.ne_nil
  | _ => simp

end Octet.Numeral
