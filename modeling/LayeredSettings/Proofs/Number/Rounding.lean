import LayeredSettings.Proofs.Number.Whole
import Mathlib.Algebra.Group.Nat.Defs
import Mathlib.Tactic.SplitIfs

/-!
# Rounding natural numbers

A natural number below 2^53 is a number as it stands. Beyond it 53 digits are kept, and a half goes
to the even neighbour. So a natural number is rounded to infinity from halfway between the largest
number, (2^53 - 1) * 2^971, and the power of two that would follow it.

* `ofRatio_one_of_lt` — below 2^53 nothing is lost;
* `isFinite_ofRatio_one_iff` — which natural numbers are not rounded to infinity.
-/

namespace LayeredSettings.Number

theorem power_natCast (base n : Nat) : power base (n : Int) = base ^ n := rfl

/-- The greatest power of two that is at most a natural number. -/
theorem floorLog2_one {n : Nat} (hn : n ≠ 0) : floorLog2 n 1 = (n.log2 : Int) := by
  have hle : 2 ^ n.log2 ≤ n := Nat.log2_self_le hn
  have hlog : Nat.log2 1 = 0 := rfl
  simp only [floorLog2, hlog, Int.natCast_zero, Int.sub_zero, power_natCast,
    power_of_nonpos 2 (by omega : -(n.log2 : Int) ≤ 0), Nat.one_mul, Nat.mul_one]
  exact if_pos hle

/-- A half goes to the even neighbour, so an even number is reached from half below it on. -/
theorem le_roundDiv_iff {num den k : Nat} (hden : 0 < den) (hpos : 0 < k) (heven : k % 2 = 0) :
    k ≤ roundDiv num den ↔ (2 * k - 1) * den ≤ 2 * num := by
  have hdivision := Nat.div_add_mod' num den
  have hrest := Nat.mod_lt num hden
  unfold roundDiv
  dsimp only
  generalize num / den = q at *
  generalize num % den = r at *
  rcases Nat.lt_trichotomy k (q + 1) with hlt | rfl | hgt
  · have hfactor : (2 * k - 1) * den ≤ 2 * q * den := Nat.mul_le_mul_right den (by omega)
    rw [Nat.mul_assoc] at hfactor
    refine iff_of_true ?_ (by omega)
    split_ifs <;> omega
  · have hfactor : (2 * (q + 1) - 1) * den = 2 * (q * den) + den := by
      have hodd : 2 * (q + 1) - 1 = 2 * q + 1 := by omega
      rw [hodd, Nat.succ_mul, Nat.mul_assoc]
    rw [hfactor]
    split_ifs <;> omega
  · have hfactor : (2 * q + 3) * den ≤ (2 * k - 1) * den := Nat.mul_le_mul_right den (by omega)
    rw [Nat.add_mul, Nat.mul_assoc] at hfactor
    refine iff_of_false ?_ (by omega)
    split_ifs <;> omega

theorem roundDiv_le (num den : Nat) : roundDiv num den ≤ num / den + 1 := by
  unfold roundDiv
  dsimp only
  split_ifs <;> omega

/-- Rounding with the exponent of the power of two below a natural number. -/
theorem ofRatio_one {n : Nat} (hn : n ≠ 0) (negative : Bool) :
    ofRatio negative n 1 =
      let e := max ((n.log2 : Int) - 52) (-1074)
      let m := roundDiv (n * power 2 (-e)) (power 2 e)
      if m = 2 * leastFull then
        if 971 < e + 1 then .infinite negative else .finite negative leastFull (e + 1)
      else if 971 < e then .infinite negative else .finite negative m e := by
  rw [ofRatio, if_neg hn]
  simp only [floorLog2_one hn, Nat.one_mul]
  split_ifs <;> rfl

/-! ## Below 2^53 -/

/-- Moved to full width, a natural number has 53 binary digits. -/
theorem full_width {n : Nat} (hn : n ≠ 0) (hlog : n.log2 ≤ 52) :
    leastFull ≤ n * 2 ^ (52 - n.log2) ∧ n * 2 ^ (52 - n.log2) < 2 * leastFull := by
  have hlow : 2 ^ n.log2 * 2 ^ (52 - n.log2) = leastFull := by
    rw [← Nat.pow_add, Nat.add_sub_cancel' hlog]
    rfl
  have hhigh : 2 ^ (n.log2 + 1) * 2 ^ (52 - n.log2) = 2 * leastFull := by
    rw [Nat.pow_succ', Nat.mul_assoc, hlow]
  constructor
  · rw [← hlow]
    exact Nat.mul_le_mul_right _ (Nat.log2_self_le hn)
  · rw [← hhigh]
    exact Nat.mul_lt_mul_of_pos_right Nat.lt_log2_self (Nat.two_pow_pos _)

/-- Below 2^53 a natural number is its own significand, moved to full width. -/
theorem ofRatio_one_of_lt {n : Nat} (hn : n ≠ 0) (hlog : n.log2 ≤ 52) (negative : Bool) :
    ofRatio negative n 1 =
      finite negative (n * 2 ^ (52 - n.log2)) (-((52 - n.log2 : Nat) : Int)) := by
  have hmax : max ((n.log2 : Int) - 52) (-1074) = -((52 - n.log2 : Nat) : Int) := by omega
  have hcarry : n * 2 ^ (52 - n.log2) ≠ 2 * leastFull := Nat.ne_of_lt (full_width hn hlog).2
  rw [ofRatio_one hn]
  simp only [hmax, Int.neg_neg, power_natCast,
    power_of_nonpos 2 (by omega : -((52 - n.log2 : Nat) : Int) ≤ 0), roundDiv_one, if_neg hcarry]
  exact if_neg (by omega)

/-! ## Beyond all numbers -/

/-- The least natural number that is rounded to infinity, 2^1024 - 2^970. -/
def leastInfinite : Nat := (2 ^ 54 - 1) * 2 ^ 970

theorem lt_of_log2_lt {n : Nat} (a b : Nat) (h : n.log2 < a + b) : n < 2 ^ a * 2 ^ b := by
  rw [← Nat.pow_add]
  exact Nat.lt_of_lt_of_le Nat.lt_log2_self (Nat.pow_le_pow_right (by decide) h)

theorem le_of_le_log2 {n : Nat} (hn : n ≠ 0) (a b : Nat) (h : a + b ≤ n.log2) :
    2 ^ a * 2 ^ b ≤ n := by
  rw [← Nat.pow_add]
  exact Nat.le_trans (Nat.pow_le_pow_right (by decide) h) (Nat.log2_self_le hn)

/-- The significand is carried into the next power of two from half a step below it on. -/
theorem roundDiv_eq_carry_iff {n step : Nat} (hstep : 0 < step) (hlt : n < 2 ^ 54 * step) :
    roundDiv n (2 * step) = 2 * leastFull ↔ (2 ^ 54 - 1) * step ≤ n := by
  have hquotient : n / (2 * step) < 2 ^ 53 := Nat.div_lt_of_lt_mul (by omega)
  have hle := roundDiv_le n (2 * step)
  have hcarry : 2 * leastFull ≤ roundDiv n (2 * step) ↔
      (2 * (2 * leastFull) - 1) * (2 * step) ≤ 2 * n :=
    le_roundDiv_iff (by omega) (by decide) (by decide)
  unfold leastFull at hcarry ⊢
  omega

/-- A natural number is rounded to infinity from halfway between the largest number and the next
power of two on. -/
theorem ofRatio_one_eq_infinite_iff {n : Nat} {negative : Bool} :
    ofRatio negative n 1 = .infinite negative ↔ leastInfinite ≤ n := by
  have hpositive (k : Nat) : 0 < 2 ^ k := Nat.two_pow_pos k
  have hstep := hpositive 970
  rw [leastInfinite]
  generalize hpower : 2 ^ 970 = step at *
  by_cases hn : n = 0
  · rw [ofRatio, if_pos hn]
    exact iff_of_false nofun (by omega)
  rw [ofRatio_one hn]
  dsimp only
  -- the exponent is compared with the largest one, 971
  rcases Nat.lt_trichotomy n.log2 1023 with hlt | heq | hgt
  · have hbelow := lt_of_log2_lt 53 970 hlt
    have he : max ((n.log2 : Int) - 52) (-1074) < 971 := by omega
    generalize max ((n.log2 : Int) - 52) (-1074) = e at he ⊢
    rw [hpower] at hbelow
    refine iff_of_false ?_ (by omega)
    rw [if_neg (by omega : ¬ 971 < e + 1), if_neg (by omega : ¬ 971 < e)]
    split_ifs <;> exact nofun
  · have he : max ((n.log2 : Int) - 52) (-1074) = ((970 : Nat) : Int) + 1 := by omega
    have hbelow := lt_of_log2_lt 54 970 (by omega : n.log2 < 54 + 970)
    rw [hpower] at hbelow
    rw [he, power_succ 2 (Int.natCast_nonneg 970), power_natCast, hpower,
      power_of_nonpos 2 (by decide : -(((970 : Nat) : Int) + 1) ≤ 0), Nat.mul_one,
      ← roundDiv_eq_carry_iff hstep hbelow]
    by_cases hcarry : roundDiv n (2 * step) = 2 * leastFull
    · rw [if_pos hcarry]
      exact iff_of_true (if_pos (by decide)) hcarry
    · rw [if_neg hcarry, if_neg (by decide)]
      exact iff_of_false nofun hcarry
  · have habove := le_of_le_log2 hn 54 970 hgt
    have he : 971 < max ((n.log2 : Int) - 52) (-1074) := by omega
    generalize max ((n.log2 : Int) - 52) (-1074) = e at he ⊢
    rw [hpower] at habove
    refine iff_of_true ?_ (by omega)
    rw [if_pos (by omega : 971 < e + 1), if_pos he, ite_self]

theorem isFinite_or_eq_infinite (negative : Bool) (num den : Nat) :
    (ofRatio negative num den).IsFinite ∨ ofRatio negative num den = .infinite negative := by
  unfold ofRatio
  split_ifs
  · exact .inl trivial
  · dsimp only
    split_ifs
    · exact .inr rfl
    · exact .inl trivial
    · exact .inr rfl
    · exact .inl trivial

/-- All other natural numbers are rounded to finite numbers. -/
theorem isFinite_ofRatio_one_iff {n : Nat} {negative : Bool} :
    (ofRatio negative n 1).IsFinite ↔ n < leastInfinite := by
  rw [← Nat.not_le, ← @ofRatio_one_eq_infinite_iff n negative]
  constructor
  · intro hfinite hinfinite
    rw [hinfinite] at hfinite
    exact hfinite
  · exact (isFinite_or_eq_infinite negative n 1).resolve_right

end LayeredSettings.Number
