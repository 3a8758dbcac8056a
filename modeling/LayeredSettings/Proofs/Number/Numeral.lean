import LayeredSettings.Proofs.Number.Rounding
import LayeredSettings.Proofs.Text.Word
import Mathlib.Data.List.Basic

/-!
# Whole numerals

A whole numeral is a sign, which may be missing, and digits, with white space around them. These
texts, and no others, are read as whole numbers. Of less than 2^53 nothing is lost, however many
zeros the numeral begins with, and zero keeps its sign.

* `IsNumeral`, `ofWholeText?_eq_some_iff` — the texts that are read, and what they are read as;
* `IsExactly`, `IsExactly.unique` — the number that is a whole number and has a sign;
* `SpellsWhole` — the spellings of a whole number;
* `readsNumerals` — each of them is read as exactly this number.
-/

namespace LayeredSettings.Number

/-! ## Texts -/

/-- A text that is a sign and digits but for white space around them. -/
structure IsNumeral (text sign digits : List Char) : Prop where
  padded : ∃ before after, text = before ++ (sign ++ digits) ++ after ∧
    Text.IsPadding before ∧ Text.IsPadding after
  isSign : IsSign sign
  ne_nil : digits ≠ []
  isDigit : ∀ c ∈ digits, Text.isDigit c = true

theorem isBlank_of_isDigit {c : Char} (h : Text.isDigit c = true) : Text.isBlank c = false := by
  have hascii : ∀ n < 0x7b, Text.isDigit (Char.ofNat n) = true →
      Text.isBlank (Char.ofNat n) = false := by
    decide +kernel
  have hlt : c.toNat < 0x7b := by
    obtain ⟨-, hhigh⟩ : '0' ≤ c ∧ c ≤ '9' := by simpa [Text.isDigit] using h
    have hhigh : c.toNat ≤ 0x39 := hhigh
    omega
  exact Text.forall_upto_small
    (p := fun c => Text.isDigit c = true → Text.isBlank c = false) hascii c hlt h

theorem IsNumeral.trim_eq {text sign digits : List Char} (h : IsNumeral text sign digits) :
    Text.trim text = sign ++ digits := by
  obtain ⟨before, after, rfl, hbefore, hafter⟩ := h.padded
  have hblank : ∀ c ∈ sign ++ digits, Text.isBlank c = false := by
    intro c hc
    rcases List.mem_append.mp hc with hc | hc
    · obtain rfl | rfl | rfl := h.isSign
      · cases hc
      · rw [List.mem_singleton.mp hc]
        decide
      · rw [List.mem_singleton.mp hc]
        decide
    · exact isBlank_of_isDigit (h.isDigit c hc)
  exact Text.trim_pad hbefore hafter (Text.trim_of_forall hblank)

/-- A text has no more than one sign and one row of digits. -/
theorem IsNumeral.unique {text sign digits otherSign otherDigits : List Char}
    (h : IsNumeral text sign digits) (hother : IsNumeral text otherSign otherDigits) :
    digits = otherDigits := by
  have hsplit := splitSign_append h.isSign h.ne_nil h.isDigit
  rw [← h.trim_eq, hother.trim_eq,
    splitSign_append hother.isSign hother.ne_nil hother.isDigit] at hsplit
  exact (congrArg Prod.snd hsplit).symm

/-- What is split off a text is its sign. -/
theorem exists_splitSign (cs : List Char) :
    ∃ sign, IsSign sign ∧ cs = sign ++ (splitSign cs).2 ∧
      (splitSign cs).1 = decide (sign = ['-']) := by
  unfold splitSign
  split
  · exact ⟨['-'], .inr (.inr rfl), rfl, rfl⟩
  · exact ⟨['+'], .inr (.inl rfl), rfl, rfl⟩
  · exact ⟨[], .inl rfl, rfl, rfl⟩

/-- The texts that are read as whole numbers are the numerals. -/
theorem ofWholeText?_eq_some_iff {raw : String} {x : Number} :
    ofWholeText? raw = some x ↔
      ∃ sign digits, IsNumeral raw.toList sign digits ∧
        x = ofNumeral (decide (sign = ['-'])) 10 digits := by
  constructor
  · intro h
    obtain ⟨before, after, hraw, hbefore, hafter⟩ := Text.exists_padding raw.toList
    obtain ⟨sign, hsign, hsplit, hnegative⟩ := exists_splitSign (Text.trim raw.toList)
    rw [ofWholeText?] at h
    dsimp only at h
    split at h
    · cases h
    · rename_i hdigits
      simp only [Bool.or_eq_true, not_or, List.isEmpty_iff, Bool.not_eq_true', Bool.not_eq_false,
        List.all_eq_true] at hdigits
      refine ⟨sign, (splitSign (Text.trim raw.toList)).2,
        ⟨⟨before, after, ?_, hbefore, hafter⟩, hsign, hdigits.1, hdigits.2⟩, ?_⟩
      · rw [← hsplit]
        exact hraw
      · rw [← hnegative]
        exact (Option.some.inj h).symm
  · rintro ⟨sign, digits, hnumeral, rfl⟩
    exact ofWholeText?_of_trim hnumeral.trim_eq hnumeral.isSign hnumeral.ne_nil hnumeral.isDigit

/-! ## Exact numbers -/

/-- Whether a number is finite and in normal form. -/
def IsNormal : Number → Prop
  | finite _ m e => m < 2 * leastFull ∧ (leastFull ≤ m ∨ e = -1074) ∧ -1074 ≤ e ∧ e ≤ 971
  | _ => False

/-- Whether the sign of a number is the minus sign. -/
def isNegative : Number → Bool
  | nan => false
  | infinite negative => negative
  | finite negative _ _ => negative

/-- Whether a number is a whole number and has a sign. For zero both signs are possible. -/
structure IsExactly (x : Number) (n : Int) (negative : Bool) : Prop where
  isNormal : x.IsNormal
  toInt?_eq : x.toInt? = some n
  isNegative_eq : x.isNegative = negative

theorem negate_ofRatio (negative : Bool) (num den : Nat) :
    (ofRatio negative num den).negate = ofRatio (!negative) num den := by
  unfold ofRatio
  dsimp only
  split_ifs <;> rfl

theorem ofNumeral_eq (negative : Bool) (base : Nat) (digits : List Char) :
    ofNumeral negative base digits = ofRatio negative (ofDigits base digits) 1 := by
  cases negative with
  | false => rfl
  | true => exact negate_ofRatio false (ofDigits base digits) 1

/-- The magnitude of a whole number in units of a power of two that is small enough. -/
theorem scaled_of_toInt? {negative : Bool} {m : Nat} {e n : Int} (least : Nat)
    (he : -(least : Int) ≤ e) (h : (finite negative m e).toInt? = some n) :
    m * 2 ^ (e + least).toNat = n.natAbs * 2 ^ least := by
  unfold toInt? at h
  dsimp only at h
  have hsign : (if negative then (-1 : Int) else 1).natAbs = 1 := by
    cases negative with
    | false => rfl
    | true => rfl
  generalize (if negative then (-1 : Int) else 1) = sign at h hsign
  have habs (a : Nat) : (sign * (a : Int)).natAbs = a := by
    rw [Int.natAbs_mul, hsign, Nat.one_mul, Int.natAbs_natCast]
  split_ifs at h with hnonneg hrest
  · obtain ⟨k, rfl⟩ := Int.eq_ofNat_of_zero_le hnonneg
    have hexponent : ((k : Int) + least).toNat = k + least := by omega
    rw [← Option.some.inj h, habs, power_natCast, hexponent, Nat.pow_add, Nat.mul_assoc]
  · obtain ⟨k, hk⟩ := Int.eq_ofNat_of_zero_le (by omega : 0 ≤ -e)
    have hexponent : k + (e + least).toNat = least := by omega
    rw [hk, power_natCast] at h hrest
    have hm : m / 2 ^ k * 2 ^ k = m := Nat.div_mul_cancel (Nat.dvd_of_mod_eq_zero hrest)
    have hpower : 2 ^ least = 2 ^ k * 2 ^ (e + least).toNat := by rw [← Nat.pow_add, hexponent]
    rw [← Option.some.inj h, habs, hpower, ← Nat.mul_assoc, hm]

/-- Of two numbers in normal form with one magnitude neither has the greater exponent, since the
significand of the other one would be too large. -/
theorem exponent_le {m k first second : Nat} (hfull : leastFull ≤ m ∨ first = 0)
    (hlt : k < 2 * leastFull) (heq : m * 2 ^ first = k * 2 ^ second) : first ≤ second := by
  refine Nat.le_of_not_lt fun hgt => ?_
  obtain ⟨d, rfl⟩ : ∃ d, first = second + 1 + d := ⟨first - second - 1, by omega⟩
  have hfull : leastFull ≤ m := hfull.resolve_right (by omega)
  have hpower : m * 2 ^ (second + 1 + d) = 2 * (m * 2 ^ d) * 2 ^ second := by
    rw [Nat.add_right_comm, Nat.pow_succ, Nat.pow_add]
    ac_rfl
  rw [hpower] at heq
  have hsame : 2 * (m * 2 ^ d) = k := Nat.eq_of_mul_eq_mul_right (Nat.two_pow_pos second) heq
  have hle : m ≤ m * 2 ^ d := Nat.le_mul_of_pos_right m (Nat.two_pow_pos d)
  omega

/-- Only one number is a whole number and has a sign. -/
theorem IsExactly.unique {x y : Number} {n : Int} {negative : Bool}
    (hx : x.IsExactly n negative) (hy : y.IsExactly n negative) : x = y := by
  obtain ⟨hxNormal, hxInt, hxSign⟩ := hx
  obtain ⟨hyNormal, hyInt, hySign⟩ := hy
  cases x with
  | nan => exact hxNormal.elim
  | infinite _ => exact hxNormal.elim
  | finite first m e =>
    cases y with
    | nan => exact hyNormal.elim
    | infinite _ => exact hyNormal.elim
    | finite second k f =>
      obtain rfl : first = negative := hxSign
      obtain rfl : second = first := hySign
      obtain ⟨hm, hmFull, he, -⟩ := hxNormal
      obtain ⟨hk, hkFull, hf, -⟩ := hyNormal
      have hscaled := (scaled_of_toInt? 1074 he hxInt).trans (scaled_of_toInt? 1074 hf hyInt).symm
      have hle := exponent_le (by omega) hk hscaled
      have hge := exponent_le (by omega) hm hscaled.symm
      have hexponent : e = f := by omega
      subst hexponent
      rw [Nat.eq_of_mul_eq_mul_right (Nat.two_pow_pos _) hscaled]

/-- A significand that was moved to another width has the value that it had. -/
theorem toInt?_finite_shifted (negative : Bool) (n k : Nat) :
    (finite negative (n * 2 ^ k) (-(k : Int))).toInt? =
      some (if negative then -(n : Int) else n) := by
  have hvalue : some ((if negative then (-1 : Int) else 1) * (n : Int)) =
      some (if negative then -(n : Int) else n) := by
    cases negative with
    | false => simp
    | true => simp
  unfold toInt?
  dsimp only
  rw [Int.neg_neg, power_natCast, Nat.mul_mod_left, if_pos rfl,
    Nat.mul_div_cancel _ (Nat.two_pow_pos k), power_of_nonpos 2 (by omega), Nat.mul_one, hvalue]
  by_cases hk : k = 0
  · rw [hk, Nat.pow_zero, Nat.mul_one, hvalue, ite_self]
  · rw [if_neg (by omega)]

theorem toInt?_zero (negative : Bool) : (zero negative).toInt? = some 0 := by
  simp [zero, toInt?]

/-- A natural number below 2^53 is rounded to the number that it is. -/
theorem isExactly_ofRatio_one {n : Nat} (hlt : n < 2 ^ 53) (negative : Bool) :
    (ofRatio negative n 1).IsExactly (if negative then -n else n) negative := by
  by_cases hn : n = 0
  · have hvalue : (if negative then -(n : Int) else n) = 0 := by simp [hn]
    rw [hvalue, ofRatio, if_pos hn]
    exact ⟨⟨by decide, .inr rfl, by decide, by decide⟩, toInt?_zero negative, rfl⟩
  · have hlog : n.log2 ≤ 52 := Nat.le_of_lt_succ ((Nat.log2_lt hn).mpr hlt)
    obtain ⟨hlow, hhigh⟩ := full_width hn hlog
    rw [ofRatio_one_of_lt hn hlog]
    exact ⟨⟨hhigh, .inl hlow, by omega, by omega⟩, toInt?_finite_shifted negative n _, rfl⟩

/-- The number of digits is whole unless they spell what is rounded to infinity. -/
theorem isInteger_ofNumeral_iff {negative : Bool} {digits : List Char} :
    (ofNumeral negative 10 digits).isInteger = true ↔ ofDigits 10 digits < leastInfinite := by
  rw [ofNumeral_eq, ← @isFinite_ofRatio_one_iff (ofDigits 10 digits) negative]
  constructor
  · intro hinteger
    rcases isFinite_or_eq_infinite negative (ofDigits 10 digits) 1 with hfinite | hinfinite
    · exact hfinite
    · rw [hinfinite] at hinteger
      cases hinteger
  · exact isInteger_ofRatio_one

/-! ## Spellings -/

theorem ofDigits_eq_ofDigitChars {digits : List Char}
    (h : ∀ c ∈ digits, Text.isDigit c = true) :
    ofDigits 10 digits = Nat.ofDigitChars 10 digits 0 := by
  rw [ofDigits, Nat.ofDigitChars_eq_foldl]
  refine List.foldl_ext _ _ _ fun n c hc => ?_
  have hdigit : '0' ≤ c ∧ c ≤ '9' := by simpa [Text.isDigit] using h c hc
  rw [digitValue, if_pos hdigit]

/-- A text that spells a whole number: after the sign there may be zeros before the digits of the
number. Only a number that is not positive has the minus sign, and only one that is not negative
may go without it. -/
def SpellsWhole (text sign : List Char) (n : Int) : Prop :=
  (∃ zeros, IsNumeral text sign (List.replicate zeros '0' ++ Nat.toDigits 10 n.natAbs)) ∧
    if sign = ['-'] then n ≤ 0 else 0 ≤ n

/-- Zeros before the digits of a number do not count. -/
theorem ofDigits_spelled {zeros n : Nat}
    (h : ∀ c ∈ List.replicate zeros '0' ++ Nat.toDigits 10 n, Text.isDigit c = true) :
    ofDigits 10 (List.replicate zeros '0' ++ Nat.toDigits 10 n) = n := by
  rw [ofDigits_eq_ofDigitChars h, Nat.ofDigitChars_append, Nat.ofDigitChars_replicate_zero,
    Nat.mul_zero, Nat.ofDigitChars_ten_toDigits]

/-- The texts that are read as whole numbers are the numerals, and each spelling of a whole number
below 2^53 is read as exactly this number. Zero is negative if there is a minus sign before it. -/
theorem readsNumerals (raw : String) :
    ((ofWholeText? raw).isSome = true ↔ ∃ sign digits, IsNumeral raw.toList sign digits) ∧
    ∀ n : Int, n.natAbs ≤ 2 ^ 53 - 1 → ∀ sign, SpellsWhole raw.toList sign n →
      ∀ x, ofWholeText? raw = some x ↔ x.IsExactly n (decide (sign = ['-'])) := by
  refine ⟨?_, fun n hn sign hspells x => ?_⟩
  · rw [Option.isSome_iff_exists]
    constructor
    · rintro ⟨x, hx⟩
      obtain ⟨sign, digits, hnumeral, -⟩ := ofWholeText?_eq_some_iff.mp hx
      exact ⟨sign, digits, hnumeral⟩
    · rintro ⟨sign, digits, hnumeral⟩
      exact ⟨_, ofWholeText?_eq_some_iff.mpr ⟨sign, digits, hnumeral, rfl⟩⟩
  · obtain ⟨⟨zeros, hnumeral⟩, hsign⟩ := hspells
    have hvalue : (if decide (sign = ['-']) = true then -(n.natAbs : Int) else n.natAbs) = n := by
      simp only [decide_eq_true_eq]
      split_ifs at hsign ⊢ <;> omega
    have hexactly := @isExactly_ofRatio_one n.natAbs (by omega) (decide (sign = ['-']))
    rw [hvalue] at hexactly
    have hread : ofWholeText? raw =
        some (ofRatio (decide (sign = ['-'])) n.natAbs 1) := by
      rw [ofWholeText?_of_trim hnumeral.trim_eq hnumeral.isSign hnumeral.ne_nil hnumeral.isDigit,
        ofNumeral_eq, ofDigits_spelled hnumeral.isDigit]
    rw [hread, Option.some.injEq]
    constructor
    · rintro rfl
      exact hexactly
    · exact hexactly.unique

/-- The least whole number above -2^53, with white space around it and zeros before its digits. -/
def paddedText : String := "\u00a0-009007199254740991\n"

theorem spellsWhole_paddedText : SpellsWhole paddedText.toList ['-'] (-9007199254740991) := by
  have hpadded : paddedText.toList = ['\u00a0'] ++ (['-'] ++
      (List.replicate 2 '0' ++ Nat.toDigits 10 9007199254740991)) ++ ['\n'] := by
    decide +kernel
  have hdigits : ∀ c ∈ List.replicate 2 '0' ++ Nat.toDigits 10 9007199254740991,
      Text.isDigit c = true :=
    List.all_eq_true.mp (by decide +kernel)
  refine ⟨⟨2, ⟨_, _, hpadded, by decide, by decide⟩, .inr (.inr rfl), by simp, hdigits⟩, ?_⟩
  exact Int.neg_nonpos_of_nonneg (by decide)

/-- It is read as this number. -/
theorem readsNumerals_paddedText :
    (-9007199254740991 : Int).natAbs ≤ 2 ^ 53 - 1 ∧
    SpellsWhole paddedText.toList ['-'] (-9007199254740991) ∧
    ∀ x, ofWholeText? paddedText = some x ↔ x.IsExactly (-9007199254740991) true := by
  have hsafe : (-9007199254740991 : Int).natAbs ≤ 2 ^ 53 - 1 := by decide
  exact ⟨hsafe, spellsWhole_paddedText,
    (readsNumerals paddedText).2 _ hsafe ['-'] spellsWhole_paddedText⟩

/-- A minus sign before zeros is kept. -/
example : ofWholeText? "-00" = some (zero true) := by decide +kernel

end LayeredSettings.Number
