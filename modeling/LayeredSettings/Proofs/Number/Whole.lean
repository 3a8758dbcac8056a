import LayeredSettings.Number.Reading

/-!
# Whole numbers

The numbers that whole numerals spell are whole, unless they are too large to be finite. Rounding
does not change this: below 2^53 nothing is rounded, and beyond it there are whole numbers only.

* `isInteger_ofRatio_one` — the number nearest to a natural number is whole;
* `ofWholeText?_of_trim` — a sign and digits are read as the number that they spell.
-/

namespace LayeredSettings.Number

/-- Whether a number is neither infinite nor undefined. -/
def IsFinite : Number → Prop
  | finite _ _ _ => True
  | _ => False

theorem power_of_nonpos (base : Nat) {e : Int} (h : e ≤ 0) : power base e = 1 := by
  rw [power, Int.toNat_of_nonpos h]
  rfl

/-- A power is the base times the power before it. -/
theorem power_succ (base : Nat) {e : Int} (h : 0 ≤ e) :
    power base (e + 1) = base * power base e := by
  have hnat : (e + 1).toNat = e.toNat + 1 := by omega
  rw [power, power, hnat]
  exact Nat.pow_succ'

/-- A quotient by one is not rounded. -/
theorem roundDiv_one (n : Nat) : roundDiv n 1 = n := by
  have hrest : n % 1 = 0 := Nat.mod_one n
  simp [roundDiv, hrest]

/-- A finite number is whole if its exponent is not negative, or else if the power of the exponent
divides the significand. -/
theorem isInteger_finite_iff {negative : Bool} {m : Nat} {e : Int} :
    (finite negative m e).isInteger = true ↔ (e < 0 → power 2 (-e) ∣ m) := by
  unfold isInteger toInt?
  by_cases he : 0 ≤ e
  · have hnot : ¬ e < 0 := by omega
    simp [he, hnot]
  · have hlt : e < 0 := by omega
    by_cases hrest : m % power 2 (-e) = 0
    · simp [he, hlt, hrest, Nat.dvd_of_mod_eq_zero hrest]
    · simp [he, hlt, hrest, Nat.dvd_iff_mod_eq_zero]

/-- Half of a multiple of a power is a multiple of the power before it. -/
theorem dvd_half {m : Nat} {e : Int} (h : power 2 (-e) ∣ 2 * m) (he : e + 1 < 0) :
    power 2 (-(e + 1)) ∣ m := by
  have hsucc : power 2 (-e) = 2 * power 2 (-(e + 1)) := by
    rw [← power_succ 2 (by omega : 0 ≤ -(e + 1))]
    congr 1
    omega
  rw [hsucc] at h
  exact Nat.dvd_of_mul_dvd_mul_left (by decide) h

/-- The number nearest to a natural number is whole, unless it is infinite. -/
theorem isInteger_ofRatio_one {negative : Bool} {n : Nat} (h : (ofRatio negative n 1).IsFinite) :
    (ofRatio negative n 1).isInteger = true := by
  unfold ofRatio at h ⊢
  by_cases hzero : n = 0
  · rw [if_pos hzero]
    exact isInteger_finite_iff.mpr fun _ => Nat.dvd_zero _
  rw [if_neg hzero] at h ⊢
  dsimp only at h ⊢
  generalize max (floorLog2 n 1 - 52) (-1074) = e at h ⊢
  generalize hm : roundDiv (n * power 2 (-e)) (1 * power 2 e) = m at h ⊢
  -- with a negative exponent nothing has been rounded
  have hdvd : e < 0 → power 2 (-e) ∣ m := by
    intro he
    rw [power_of_nonpos 2 (by omega : e ≤ 0), Nat.one_mul, roundDiv_one] at hm
    exact hm ▸ Nat.dvd_mul_left _ _
  by_cases hcarry : m = 2 * leastFull
  · rw [if_pos hcarry] at h ⊢
    by_cases hlarge : 971 < e + 1
    · rw [if_pos hlarge] at h
      exact h.elim
    · rw [if_neg hlarge]
      exact isInteger_finite_iff.mpr fun he => dvd_half (hcarry ▸ hdvd (by omega)) he
  · rw [if_neg hcarry] at h ⊢
    by_cases hlarge : 971 < e
    · rw [if_pos hlarge] at h
      exact h.elim
    · rw [if_neg hlarge]
      exact isInteger_finite_iff.mpr hdvd

@[simp] theorem isInteger_negate (n : Number) : n.negate.isInteger = n.isInteger := by
  cases n with
  | nan => rfl
  | infinite negative => rfl
  | finite negative m e =>
    rw [negate, Bool.eq_iff_iff, isInteger_finite_iff, isInteger_finite_iff]

/-- The number of a whole numeral is whole, unless it is infinite. -/
theorem isInteger_ofNumeral {negative : Bool} {digits : List Char}
    (h : (ofNat (ofDigits 10 digits)).IsFinite) :
    (ofNumeral negative 10 digits).isInteger = true := by
  have hnat : (ofNat (ofDigits 10 digits)).isInteger = true := isInteger_ofRatio_one h
  unfold ofNumeral
  cases negative with
  | false => exact hnat
  | true => rw [if_pos rfl, isInteger_negate, hnat]

/-! ## Numerals -/

/-- The sign of a numeral, which may be missing. -/
def IsSign (sign : List Char) : Prop := sign = [] ∨ sign = ['+'] ∨ sign = ['-']

theorem splitSign_append {sign digits : List Char} (hsign : IsSign sign) (hne : digits ≠ [])
    (hdigits : ∀ c ∈ digits, Text.isDigit c = true) :
    splitSign (sign ++ digits) = (decide (sign = ['-']), digits) := by
  obtain ⟨c, rest, rfl⟩ := List.exists_cons_of_ne_nil hne
  have hdigit := hdigits c List.mem_cons_self
  obtain rfl | rfl | rfl := hsign
  · -- a digit is no sign
    rw [List.nil_append]
    unfold splitSign
    split
    · next heq =>
      cases heq
      exact absurd hdigit (by decide)
    · next heq =>
      cases heq
      exact absurd hdigit (by decide)
    · rfl
  · rfl
  · rfl

/-- Once trimmed, a sign and digits are read as the number that they spell. -/
theorem ofWholeText?_of_trim {raw : String} {sign digits : List Char}
    (htrim : Text.trim raw.toList = sign ++ digits) (hsign : IsSign sign) (hne : digits ≠ [])
    (hdigits : ∀ c ∈ digits, Text.isDigit c = true) :
    ofWholeText? raw = some (ofNumeral (decide (sign = ['-'])) 10 digits) := by
  rw [ofWholeText?, htrim, splitSign_append hsign hne hdigits]
  have hall : digits.all Text.isDigit = true := List.all_eq_true.mpr hdigits
  have hempty : digits.isEmpty = false := by simp [hne]
  simp [hall, hempty]

/-- A sign and digits are read as the number that they spell. -/
theorem ofWholeText?_numeral {raw : String} (htrimmed : Text.trim raw.toList = raw.toList)
    {sign digits : List Char} (hraw : raw.toList = sign ++ digits) (hsign : IsSign sign)
    (hne : digits ≠ []) (hdigits : ∀ c ∈ digits, Text.isDigit c = true) :
    ∃ negative, ofWholeText? raw = some (ofNumeral negative 10 digits) :=
  ⟨_, ofWholeText?_of_trim (htrimmed.trans hraw) hsign hne hdigits⟩

end LayeredSettings.Number
