import Octet.Proofs.Digits
import Octet.Proofs.Reading
import Mathlib.Data.Nat.Digits.Defs

/-!
# The integer that a text denotes

The grammar of numerals, told apart from how they are read: a marker, then at most one sign, then
the longest run of digits of the base, which denotes an integer of any size. Reading gives this
integer if its magnitude is at most `limit`, and else `limit` with the same sign. Digits are added
up in saturating arithmetic on signed words of 64 bits, and since saturation is kept up by every
further digit, no numeral comes back into the range of a byte, however long it is.
-/
namespace Octet

namespace Numeral

/-! ### The grammar -/

/-- One of the two markers that stand in front. -/
def HasFrontMarker (cs : List Char) : Prop :=
  ∃ rest, cs = '0' :: 'x' :: rest ∨ cs = '0' :: 'o' :: rest

/-- The base in which a text is read, and the part of the text that is read in it. A marker in front
comes first, then a marker behind, and a text without marker holds digits only. -/
inductive Marked : List Char → ℕ → List Char → Prop
  | hexadecimal (part : List Char) : Marked ('0' :: 'x' :: part) 16 part
  | octal (part : List Char) : Marked ('0' :: 'o' :: part) 8 part
  | binary {part : List Char} (front : ¬ HasFrontMarker (part ++ ['b'])) :
      Marked (part ++ ['b']) 2 part
  | decimal {part : List Char} (front : ¬ HasFrontMarker (part ++ ['d'])) :
      Marked (part ++ ['d']) 10 part
  | plain {sign digits : List Char} (one : sign ∈ [[], ['+'], ['-']]) (some : digits ≠ [])
      (all : ∀ c ∈ digits, c.isDigit = true) : Marked (sign ++ digits) 10 (sign ++ digits)

/-- At most one sign is taken off. -/
inductive Signed : List Char → ℤ → List Char → Prop
  | minus (digits : List Char) : Signed ('-' :: digits) (-1) digits
  | plus (digits : List Char) : Signed ('+' :: digits) 1 digits
  | none {digits : List Char} (bare : digits.head? ≠ some '-' ∧ digits.head? ≠ some '+') :
      Signed digits 1 digits

/-- The values of the longest run of digits in front. -/
def Run (base : ℕ) (cs : List Char) (values : List ℕ) : Prop :=
  ∃ digits rest, cs = digits ++ rest ∧
    List.Forall₂ (fun c d => d < base ∧ IsDigit c d) digits values ∧
    ∀ c ∈ rest.head?, ∀ d < base, ¬ IsDigit c d

/-- The unbounded integer that a text denotes, as a sign and a magnitude. The first digit is the
most significant one. -/
def Denotes (cs : List Char) (sign : ℤ) (magnitude : ℕ) : Prop :=
  ∃ base part digits values, Marked cs base part ∧ Signed part sign digits ∧
    Run base digits values ∧ values ≠ [] ∧ magnitude = Nat.ofDigits base values.reverse

/-! ### Saturation -/

/-- The signed word of 64 bits that is closest to an integer. -/
def saturate (n : ℤ) : ℤ := max (-2 ^ 63) (min n (2 ^ 63 - 1))

/-- Digits added up with one saturating product and one saturating sum for each. -/
def accumulate (base : ℕ) (values : List ℕ) : ℤ :=
  values.foldl (fun value (digit : ℕ) => saturate (saturate (value * base) + digit)) 0

lemma accumulate_append (base : ℕ) (values : List ℕ) (d : ℕ) : accumulate base (values ++ [d]) =
    saturate (saturate (accumulate base values * base) + d) := by
  rw [accumulate, List.foldl_append, ← accumulate]
  rfl

lemma saturate_of_nonneg {n : ℤ} (h : 0 ≤ n) : saturate n = min n limit := by
  have hlimit : (limit : ℤ) = 2 ^ 63 - 1 := rfl
  rw [saturate, hlimit]
  omega

/-- Two saturating steps are one. -/
theorem accumulate_eq_magnitude (base : ℕ) (values : List ℕ) :
    accumulate base values = magnitude base values := by
  induction values using List.reverseRecOn with
  | nil => rfl
  | append_singleton values d ih =>
    have hproduct : (0 : ℤ) ≤ magnitude base values * base := by positivity
    rw [accumulate_append, ih, magnitude_append, saturate_of_nonneg hproduct, saturate_of_nonneg]
    · push_cast
      omega
    · have hlimit : (0 : ℤ) ≤ limit := by positivity
      omega

/-- What is beyond the limit stays there when a digit follows. -/
lemma min_mul_add_min (value base d : ℕ) :
    min (min value limit * base + d) limit = min (value * base + d) limit := by
  rcases Nat.eq_zero_or_pos base with rfl | hbase
  · simp
  rcases Nat.le_total value limit with hle | hle
  · rw [Nat.min_eq_left hle]
  · have hlimit : limit ≤ limit * base := Nat.le_mul_of_pos_right _ hbase
    have hvalue : limit * base ≤ value * base := Nat.mul_le_mul_right _ hle
    rw [Nat.min_eq_right hle]
    omega

/-- Saturating at every digit gives the same as saturating once at the end. -/
theorem magnitude_eq (base : ℕ) (values : List ℕ) :
    magnitude base values = min (Nat.ofDigits base values.reverse) limit := by
  induction values using List.reverseRecOn with
  | nil => rfl
  | append_singleton values d ih =>
    rw [magnitude_append, ih, min_mul_add_min, List.reverse_append, List.reverse_singleton,
      List.singleton_append, Nat.ofDigits_cons, Nat.add_comm, Nat.mul_comm]

/-! ### Digits -/

variable {base n d : ℕ} {c : Char} {cs part digits : List Char} {values : List ℕ}

/-- Digits are told from the numbers of their characters. -/
lemma isDigit_of_toNat (hd : d < 16)
    (h : (d < 10 ∧ c.toNat = 48 + d) ∨ (10 ≤ d ∧ (c.toNat = 87 + d ∨ c.toNat = 55 + d))) :
    IsDigit c d := by
  have hnat : c.toLower.toNat = (Nat.digitChar d).toNat := by
    rw [toNat_toLower, toNat_digitChar hd]
    split_ifs <;> omega
  exact Char.toNat_inj.mp hnat

lemma digitValue?_eq_some_iff (hbase : base ≤ 16) :
    digitValue? base c = some d ↔ d < base ∧ IsDigit c d := by
  refine ⟨fun h => ?_, fun ⟨hd, hdigit⟩ => hdigit.digitValue? hd hbase⟩
  obtain ⟨hvalue, hlt⟩ := Option.filter_eq_some_iff.mp h
  have hd : d < base := of_decide_eq_true hlt
  refine ⟨hd, isDigit_of_toNat (by omega) ?_⟩
  simp only [Char.le_def, UInt32.le_iff_toNat_le, Char.toNat_val, Char.reduceToNat] at hvalue
  split_ifs at hvalue <;> have hdigit := Option.some.inj hvalue <;> omega

lemma digitValue?_eq_none_iff (hbase : base ≤ 16) :
    digitValue? base c = none ↔ ∀ d < base, ¬ IsDigit c d := by
  rw [Option.eq_none_iff_forall_ne_some]
  simp only [ne_eq, digitValue?_eq_some_iff hbase, not_and]

lemma run_leadingDigits (hbase : base ≤ 16) (cs : List Char) :
    Run base cs (leadingDigits base cs) := by
  induction cs with
  | nil => exact ⟨[], [], rfl, .nil, by simp⟩
  | cons c cs ih =>
    cases hdigit : digitValue? base c with
    | none =>
      have hvalues : leadingDigits base (c :: cs) = [] := by rw [leadingDigits, hdigit]
      rw [hvalues]
      exact ⟨[], c :: cs, rfl, .nil, by simpa using (digitValue?_eq_none_iff hbase).mp hdigit⟩
    | some d =>
      have hvalues : leadingDigits base (c :: cs) = d :: leadingDigits base cs := by
        rw [leadingDigits, hdigit]
      obtain ⟨digits, rest, rfl, hdigits, hrest⟩ := ih
      rw [hvalues]
      exact ⟨c :: digits, rest, rfl, .cons ((digitValue?_eq_some_iff hbase).mp hdigit) hdigits,
        hrest⟩

/-- There is just one longest run. -/
theorem run_iff (hbase : base ≤ 16) : Run base cs values ↔ leadingDigits base cs = values := by
  constructor
  · rintro ⟨digits, rest, rfl, hdigits, hrest⟩
    have hstop : leadingDigits base rest = [] := by
      cases rest with
      | nil => rfl
      | cons c rest => rw [leadingDigits, (digitValue?_eq_none_iff hbase).mpr (hrest c rfl)]
    induction hdigits with
    | nil => exact hstop
    | cons hdigit _ ih =>
      rw [List.cons_append, leadingDigits, (digitValue?_eq_some_iff hbase).mpr hdigit, ih]
  · rintro rfl
    exact run_leadingDigits hbase cs

/-! ### Parts of a numeral -/

lemma Signed.unique {sign sign' : ℤ} {digits' : List Char} (h : Signed part sign digits)
    (h' : Signed part sign' digits') : sign = sign' ∧ digits = digits' := by
  cases h <;> cases h' <;> simp_all

/-- The sign is taken off, and the digits behind it are read. -/
lemma exists_signed (base : ℕ) (part : List Char) : ∃ sign digits, Signed part sign digits ∧
    signed? base part = (unsigned? base digits).map fun n : ℕ => sign * (n : ℤ) := by
  unfold signed?
  split
  · next digits =>
    refine ⟨-1, digits, .minus digits, ?_⟩
    simp only [neg_one_mul]
    cases unsigned? base digits <;> rfl
  · next digits =>
    refine ⟨1, digits, .plus digits, ?_⟩
    simp only [one_mul]
    rfl
  · next hminus hplus =>
    refine ⟨1, part, .none ⟨?_, ?_⟩, ?_⟩
    · intro hhead
      obtain ⟨rest, rfl⟩ := List.head?_eq_some_iff.mp hhead
      exact hminus rest rfl
    · intro hhead
      obtain ⟨rest, rfl⟩ := List.head?_eq_some_iff.mp hhead
      exact hplus rest rfl
    · simp only [one_mul]
      rfl

lemma unsigned?_eq_some_iff : unsigned? base digits = some n ↔
    leadingDigits base digits ≠ [] ∧ n = magnitude base (leadingDigits base digits) := by
  unfold unsigned?
  cases leadingDigits base digits with
  | nil => simp
  | cons => simp [eq_comm]

theorem signed?_eq_some_iff (hbase : base ≤ 16) {z : ℤ} : signed? base part = some z ↔
    ∃ sign digits values, Signed part sign digits ∧ Run base digits values ∧ values ≠ [] ∧
      z = sign * magnitude base values := by
  obtain ⟨sign, digits, hsigned, heq⟩ := exists_signed base part
  rw [heq]
  simp only [Option.map_eq_some_iff, unsigned?_eq_some_iff, run_iff hbase]
  constructor
  · rintro ⟨n, ⟨hne, rfl⟩, rfl⟩
    exact ⟨sign, digits, _, hsigned, rfl, hne, rfl⟩
  · rintro ⟨sign', digits', values, hsigned', rfl, hne, rfl⟩
    obtain ⟨rfl, rfl⟩ := hsigned.unique hsigned'
    exact ⟨_, ⟨hne, rfl⟩, rfl⟩

lemma isDecimal_iff : isDecimal cs = true ↔ ∃ sign digits : List Char,
    sign ∈ [[], ['+'], ['-']] ∧ digits ≠ [] ∧ (∀ c ∈ digits, c.isDigit = true) ∧
      cs = sign ++ digits := by
  have hdigits {digits : List Char} : (!digits.isEmpty && digits.all Char.isDigit) = true ↔
      digits ≠ [] ∧ ∀ c ∈ digits, c.isDigit = true := by
    simp
  unfold isDecimal
  constructor
  · intro h
    split at h
    · next digits =>
      obtain ⟨hne, hall⟩ := hdigits.mp h
      exact ⟨['-'], digits, by simp, hne, hall, rfl⟩
    · next digits =>
      obtain ⟨hne, hall⟩ := hdigits.mp h
      exact ⟨['+'], digits, by simp, hne, hall, rfl⟩
    · obtain ⟨hne, hall⟩ := hdigits.mp h
      exact ⟨[], cs, by simp, hne, hall, rfl⟩
  · rintro ⟨sign, digits, hone, hne, hall, rfl⟩
    simp only [List.mem_cons, List.not_mem_nil, or_false] at hone
    rcases hone with rfl | rfl | rfl
    · obtain ⟨c, digits, rfl⟩ := List.exists_cons_of_ne_nil hne
      have hdigit := hall c List.mem_cons_self
      rw [List.nil_append]
      split
      · next heq =>
        rw [(List.cons.inj heq).1] at hdigit
        cases hdigit
      · next heq =>
        rw [(List.cons.inj heq).1] at hdigit
        cases hdigit
      · exact hdigits.mpr ⟨hne, hall⟩
    · exact hdigits.mpr ⟨hne, hall⟩
    · exact hdigits.mpr ⟨hne, hall⟩

lemma split?_of_not_front (h : ¬ HasFrontMarker cs) : split? cs =
    if cs.getLast? = some 'b' then some (2, cs.dropLast)
    else if cs.getLast? = some 'd' then some (10, cs.dropLast)
    else if isDecimal cs then some (10, cs)
    else none := by
  unfold split?
  split
  · next rest => exact absurd ⟨rest, .inl rfl⟩ h
  · next rest => exact absurd ⟨rest, .inr rfl⟩ h
  · rfl

lemma marked_of_split? (h : split? cs = some (base, part)) : Marked cs base part := by
  by_cases hfront : HasFrontMarker cs
  · obtain ⟨rest, rfl | rfl⟩ := hfront <;> cases h
    · exact .hexadecimal _
    · exact .octal _
  rw [split?_of_not_front hfront] at h
  split_ifs at h with hb hd hdecimal <;> cases h
  · obtain ⟨part, rfl⟩ := List.getLast?_eq_some_iff.mp hb
    rw [List.dropLast_concat]
    exact .binary hfront
  · obtain ⟨part, rfl⟩ := List.getLast?_eq_some_iff.mp hd
    rw [List.dropLast_concat]
    exact .decimal hfront
  · obtain ⟨sign, digits, hone, hsome, hall, rfl⟩ := isDecimal_iff.mp hdecimal
    exact .plain hone hsome hall

theorem split?_eq_some_iff : split? cs = some (base, part) ↔ Marked cs base part := by
  refine ⟨marked_of_split?, fun h => ?_⟩
  cases h with
  | hexadecimal | octal => rfl
  | binary hfront | decimal hfront =>
    rw [split?_of_not_front hfront]
    simp
  | @plain sign digits hone hsome hall =>
    have hmem {c : Char} (hc : c.isDigit = false) (hsign : c ∉ ['+', '-']) :
        c ∉ sign ++ digits := by
      rw [List.mem_append, not_or]
      refine ⟨?_, fun hdigit => by simp [hall c hdigit] at hc⟩
      simp only [List.mem_cons, List.not_mem_nil, or_false] at hone hsign
      rcases hone with rfl | rfl | rfl <;> simp_all
    have hlast {c : Char} (hc : c.isDigit = false) (hsign : c ∉ ['+', '-']) :
        (sign ++ digits).getLast? ≠ some c := fun hlast =>
      hmem hc hsign (List.mem_of_getLast? hlast)
    rw [split?_of_not_mem (hmem rfl (by decide)) (hmem rfl (by decide)),
      if_neg (hlast rfl (by decide)), if_neg (hlast rfl (by decide)),
      if_pos (isDecimal_iff.mpr ⟨sign, digits, hone, hsome, hall, rfl⟩)]

/-! ### Numerals -/

lemma Marked.base_le (h : Marked cs base part) : base ≤ 16 := by cases h <;> decide

/-- Reading gives the sign of the denoted integer and its magnitude up to the limit. -/
theorem value?_eq_some_iff {z : ℤ} : value? cs = some z ↔
    ∃ sign magnitude, Denotes cs sign magnitude ∧ z = sign * (min magnitude limit : ℕ) := by
  rw [value?, Option.bind_eq_some_iff]
  constructor
  · rintro ⟨⟨base, part⟩, hsplit, hsigned⟩
    have hmarked := split?_eq_some_iff.mp hsplit
    obtain ⟨sign, digits, values, hsign, hrun, hne, rfl⟩ :=
      (signed?_eq_some_iff hmarked.base_le).mp hsigned
    exact ⟨sign, _, ⟨base, part, digits, values, hmarked, hsign, hrun, hne, rfl⟩,
      by rw [magnitude_eq]⟩
  · rintro ⟨sign, _, ⟨base, part, digits, values, hmarked, hsign, hrun, hne, rfl⟩, rfl⟩
    refine ⟨(base, part), split?_eq_some_iff.mpr hmarked,
      (signed?_eq_some_iff hmarked.base_le).mpr ⟨sign, digits, values, hsign, hrun, hne, ?_⟩⟩
    rw [magnitude_eq]

/-- A text denotes at most one integer. -/
theorem Denotes.unique {sign sign' : ℤ} {m m' : ℕ} (h : Denotes cs sign m)
    (h' : Denotes cs sign' m') : sign = sign' ∧ m = m' := by
  obtain ⟨base, part, digits, values, hmarked, hsign, hrun, -, rfl⟩ := h
  obtain ⟨base', part', digits', values', hmarked', hsign', hrun', -, rfl⟩ := h'
  have hsplit := (split?_eq_some_iff.mpr hmarked).symm.trans (split?_eq_some_iff.mpr hmarked')
  obtain ⟨rfl, rfl⟩ := Prod.mk.inj (Option.some.inj hsplit)
  obtain ⟨rfl, rfl⟩ := hsign.unique hsign'
  rw [run_iff hmarked.base_le] at hrun hrun'
  rw [← hrun, ← hrun']
  exact ⟨rfl, rfl⟩

/-- A text is read as a byte exactly if it denotes this byte. Whatever is beyond the limit is far
from a byte, on either side of zero. -/
lemma value?_eq_byte_iff {byte : UInt8} : value? cs = some (byte.toNat : ℤ) ↔
    ∃ sign magnitude, Denotes cs sign magnitude ∧ sign * magnitude = byte.toNat := by
  rw [value?_eq_some_iff]
  refine exists_congr fun sign => exists_congr fun magnitude => and_congr_right fun hdenotes => ?_
  obtain ⟨_, _, _, _, _, hsigned, _⟩ := hdenotes
  have hbyte := byte.toNat_lt
  have hlimit : limit = 2 ^ 63 - 1 := rfl
  cases hsigned <;> omega

end Numeral

/-! ### Operands -/

open Numeral Results

/-- The text denotes an integer that a byte can hold. -/
def DenotesByte (cs : List Char) : Prop :=
  ∃ sign magnitude, Denotes cs sign magnitude ∧ 0 ≤ sign * magnitude ∧ sign * magnitude ≤ 255

variable {cs : List Char} {role : NumberRole} {line : ℕ} {span : Span}

lemma denotesByte_iff : DenotesByte cs ↔ ∃ byte : UInt8, value? cs = some (byte.toNat : ℤ) := by
  simp only [value?_eq_byte_iff]
  constructor
  · rintro ⟨sign, magnitude, hdenotes, hnonneg, hle⟩
    refine ⟨UInt8.ofNat (sign * magnitude).toNat, sign, magnitude, hdenotes, ?_⟩
    rw [UInt8.toNat_ofNat_of_lt' (by change _ < 256; omega)]
    omega
  · rintro ⟨byte, sign, magnitude, hdenotes, hbyte⟩
    have hlt := byte.toNat_lt
    exact ⟨sign, magnitude, hdenotes, by omega, by omega⟩

lemma Cell.ofChars_byte_iff {byte : UInt8} :
    Cell.ofChars role line span cs = .ok (.byte byte) ↔ value? cs = some (byte.toNat : ℤ) := by
  rw [Cell.ofChars_ok_iff]
  constructor
  · rintro ⟨term, hspelled, heq⟩
    cases term with
    | label => cases heq
    | byte => cases heq; exact hspelled
  · intro hvalue
    exact ⟨.byte byte, hvalue, rfl⟩

/-- A text is accepted as a label or as a byte. -/
lemma Cell.exists_ofChars_iff : (∃ cell, Cell.ofChars role line span cs = .ok cell) ↔
    isLabel cs = true ∨ DenotesByte cs := by
  simp only [Cell.ofChars_ok_iff, denotesByte_iff]
  constructor
  · rintro ⟨_, label | byte, hspelled, rfl⟩
    · have hchars : label.chars = cs := hspelled
      exact .inl (hchars ▸ label.valid)
    · exact .inr ⟨byte, hspelled⟩
  · rintro (hlabel | ⟨byte, hvalue⟩)
    · exact ⟨_, .label ⟨cs, hlabel⟩, rfl, rfl⟩
    · exact ⟨_, .byte byte, hvalue, rfl⟩

/-- A text is a numeral exactly if it denotes an integer, and it is read as this integer, saturated
at the bounds of a signed word of 64 bits, which saturating at every digit gives as well. As an
operand, bare or in brackets, a text that is no label is accepted exactly if the integer itself,
which may be of any size, lies between 0 and 255. -/
theorem numerals_denote_integers (cs : List Char) :
    (∀ n, value? cs = some n ↔ ∃ sign magnitude, Denotes cs sign magnitude ∧
      n = sign * (min magnitude (2 ^ 63 - 1) : ℕ)) ∧
    (∀ n, value? cs = some n → saturate n = n) ∧
    (∀ sign magnitude sign' magnitude', Denotes cs sign magnitude → Denotes cs sign' magnitude' →
      sign = sign' ∧ magnitude = magnitude') ∧
    (∀ base values,
      accumulate base values = (min (Nat.ofDigits base values.reverse) (2 ^ 63 - 1) : ℕ)) ∧
    ∀ line offset : ℕ,
      let word : Token := ⟨.word, cs, offset⟩
      let address : Token := ⟨.address true, '[' :: (cs ++ [']']), offset⟩
      ((∃ operand, Operand.ofToken line word = .ok operand) ↔
        isLabel cs = true ∨ DenotesByte cs) ∧
      ((∃ operand, Operand.ofToken line address = .ok operand) ↔
        isLabel cs = true ∨ DenotesByte cs) ∧
      ∀ byte : UInt8,
        (Operand.ofToken line word = .ok (.number (.byte byte)) ↔
          ∃ sign magnitude, Denotes cs sign magnitude ∧ sign * magnitude = byte.toNat) ∧
        (Operand.ofToken line address = .ok (.address (.byte byte)) ↔
          ∃ sign magnitude, Denotes cs sign magnitude ∧ sign * magnitude = byte.toNat) := by
  refine ⟨fun n => value?_eq_some_iff, fun n hvalue => ?_, fun _ _ _ _ => Denotes.unique,
    fun base values => ?_, fun line offset => ?_⟩
  · obtain ⟨sign, magnitude, ⟨_, _, _, _, _, hsigned, _⟩, rfl⟩ := value?_eq_some_iff.mp hvalue
    have hlimit : limit = 2 ^ 63 - 1 := rfl
    unfold saturate
    cases hsigned <;> omega
  · rw [accumulate_eq_magnitude, magnitude_eq]
    rfl
  · have hinner : Token.inner ⟨.address true, '[' :: (cs ++ [']']), offset⟩ = cs := by
      simp [Token.inner]
    simp only [Operand.ofToken, hinner, ← value?_eq_byte_iff]
    refine ⟨?_, ?_, fun byte => ⟨?_, ?_⟩⟩
    · rw [exists_map_ok_iff, Cell.exists_ofChars_iff]
    · rw [exists_map_ok_iff, Cell.exists_ofChars_iff]
    · rw [map_ok_iff_of_injective fun _ _ => Operand.number.inj, Cell.ofChars_byte_iff]
    · rw [map_ok_iff_of_injective fun _ _ => Operand.address.inj, Cell.ofChars_byte_iff]

end Octet
