/-!
# Double-precision numbers

A number is kept as its sign, significand and exponent, so that statements about it are statements
about integers. Every finite number made here is in normal form: the significand is below 2^53,
and it is at least 2^52 unless the exponent is the least one, -1074.
-/

namespace LayeredSettings

/-- A double-precision number. `finite` stands for the significand times a power of two. -/
inductive Number where
  | nan
  | infinite (negative : Bool)
  | finite (negative : Bool) (significand : Nat) (exponent : Int)
deriving DecidableEq, Repr, Inhabited

namespace Number

/-- Zero, which keeps a sign. -/
def zero (negative : Bool) : Number := .finite negative 0 (-1074)

/-- The power of a base with an exponent that is not negative; with a negative one, 1. A factor of
this form scales one side of a comparison or the other. -/
def power (base : Nat) (exponent : Int) : Nat := Nat.pow base exponent.toNat

/-- The least significand of full width, 2^52. -/
def leastFull : Nat := 4503599627370496

/-- The quotient rounded to the nearest whole number; a half goes to the even neighbour. -/
def roundDiv (num den : Nat) : Nat :=
  let q := num / den
  let r := num % den
  if 2 * r < den then q
  else if den < 2 * r then q + 1
  else if q % 2 = 0 then q else q + 1

/-- The exponent of the greatest power of two that is at most `num / den`. -/
def floorLog2 (num den : Nat) : Int :=
  let estimate : Int := (num.log2 : Int) - (den.log2 : Int)
  -- the estimate is right or one too large
  if den * power 2 estimate ≤ num * power 2 (-estimate) then estimate else estimate - 1

/-- The number nearest to `num / den`; beyond the largest number, infinity. -/
def ofRatio (negative : Bool) (num den : Nat) : Number :=
  if num = 0 then zero negative
  else
    let e := max (floorLog2 num den - 52) (-1074)
    let m := roundDiv (num * power 2 (-e)) (den * power 2 e)
    -- rounding up may reach the next binade
    let (m, e) := if m = 2 * leastFull then (leastFull, e + 1) else (m, e)
    if 971 < e then .infinite negative else .finite negative m e

/-- The number nearest to a natural number. -/
def ofNat (n : Nat) : Number := ofRatio false n 1

/-- The number nearest to `digits` times a power of ten. -/
def ofDecimal (negative : Bool) (digits : Nat) (exponent : Int) : Number :=
  let magnitude : Int := (Nat.toDigits 10 digits).length + exponent
  if digits = 0 then zero negative
  -- far outside the range of numbers the power of ten is not computed
  else if 400 < magnitude then .infinite negative
  else if magnitude < -400 then zero negative
  else ofRatio negative (digits * power 10 exponent) (power 10 (-exponent))

/-- The number with the other sign. -/
def negate : Number → Number
  | nan => nan
  | infinite negative => infinite !negative
  | finite negative m e => finite (!negative) m e

/-- The number `n` if `n` is whole. -/
def toInt? : Number → Option Int
  | finite negative m e =>
    let sign : Int := if negative then -1 else 1
    if 0 ≤ e then some (sign * (m * power 2 e : Nat))
    else if m % power 2 (-e) = 0 then some (sign * (m / power 2 (-e) : Nat)) else none
  | _ => none

/-- Whether the number is whole; no infinity is. -/
def isInteger (n : Number) : Bool := n.toInt?.isSome

/-- Whether the number is one of the two zeros. -/
def isZero : Number → Bool
  | finite _ m _ => m == 0
  | _ => false

/-- Whether the number lies above a natural number. -/
def exceeds (n : Number) (bound : Nat) : Bool :=
  match n with
  | nan => false
  | infinite negative => !negative
  | finite negative m e => !negative && bound * power 2 (-e) < m * power 2 e

/-- The 64 bits of the interchange format: a sign, eleven bits of exponent, 52 of significand. -/
def bits : Number → Nat
  | nan => 0x7FF8000000000000
  | infinite negative => (if negative then 0x8000000000000000 else 0) + 0x7FF0000000000000
  | finite negative m e =>
    (if negative then 0x8000000000000000 else 0) +
      (if m < leastFull then m else (e + 1075).toNat * leastFull + (m - leastFull))

end Number

end LayeredSettings
