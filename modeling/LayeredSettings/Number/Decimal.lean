import LayeredSettings.Number.Basic

/-!
# Decimal text of numbers

A number is written with the fewest digits that read back as it, and of those with the digits
nearest to it. Digits stand positionally while the point falls between the sixth place after it
and the twenty-first digit before it; otherwise an exponent is written.
-/

namespace LayeredSettings.Number

/-- The exponent of the greatest power of ten that is at most `num / den`. -/
def floorLog10 (num den : Nat) : Int :=
  if den ≤ num then ((Nat.toDigits 10 (num / den)).length : Int) - 1
  else
    -- the least `j` with `den / num ≤ 10 ^ j`
    let quotient := (den + num - 1) / num
    Int.negOfNat (Nat.toDigits 10 (quotient - 1)).length

/-- The decimal digits `d` and the exponent `j` of a number `d * 10 ^ j`. -/
structure Digits where
  digits : Nat
  exponent : Int

/-- Without trailing zeros among the digits. -/
def Digits.stripped (fuel : Nat) (d : Digits) : Digits :=
  match fuel with
  | 0 => d
  | fuel + 1 =>
    if d.digits ≠ 0 ∧ d.digits % 10 = 0 then
      Digits.stripped fuel { digits := d.digits / 10, exponent := d.exponent + 1 }
    else d

/-- The real numbers that round to a number, in units of `1 / scale`: all from `low` to `high`, the
ends with them if `closed`. -/
structure RoundingInterval where
  scale : Nat
  low : Nat
  value : Nat
  high : Nat
  closed : Bool

/-- The interval of the positive number `m * 2 ^ e`. Below a power of two the neighbours are closer
together. -/
def RoundingInterval.of (m : Nat) (e : Int) : RoundingInterval :=
  let below := if m = leastFull ∧ -1074 < e then 1 else 2
  { scale := 4 * power 2 (-e)
    low := (4 * m - below) * power 2 e
    value := 4 * m * power 2 e
    high := (4 * m + 2) * power 2 e
    closed := m % 2 == 0 }

/-- Whether `d * 10 ^ j` lies in the interval. -/
def RoundingInterval.contains (i : RoundingInterval) (d : Nat) (j : Int) : Bool :=
  let point := d * power 10 j * i.scale
  let unit := power 10 (-j)
  if i.closed then i.low * unit ≤ point && point ≤ i.high * unit
  else i.low * unit < point && point < i.high * unit

/-- Of the two neighbours of the value among the multiples of `10 ^ j`, the nearer one that lies in
the interval; a tie goes to the even one. -/
def RoundingInterval.onGrid? (i : RoundingInterval) (j : Int) : Option Digits :=
  let scaled := i.value * power 10 (-j)
  let step := power 10 j * i.scale
  let lower := scaled / step
  let upper := lower + 1
  let toLower := scaled - lower * step
  let toUpper := upper * step - scaled
  match i.contains lower j, i.contains upper j with
  | true, true =>
    let nearer :=
      if toLower < toUpper then lower else if toUpper < toLower then upper
      else if lower % 2 = 0 then lower else upper
    some { digits := nearer, exponent := j }
  | true, false => some { digits := lower, exponent := j }
  | false, true => some { digits := upper, exponent := j }
  | false, false => none

/-- The fewest digits that round to the positive number `m * 2 ^ e`. Seventeen always suffice. -/
def shortest (m : Nat) (e : Int) : Digits :=
  let i := RoundingInterval.of m e
  let k := floorLog10 i.value i.scale
  let found := (List.range 17).findSome? fun (n : Nat) => i.onGrid? (k - (n : Int))
  (found.getD { digits := m, exponent := 0 }).stripped 32

/-- Where the decimal point stands in the text of a number. -/
structure Layout where
  /-- The most digits before the point. -/
  mostBefore : Int
  /-- The most zeros right after the point. -/
  mostZeros : Int

/-- Up to 21 digits stand before the point and up to six zeros after it. -/
def layout : Layout := { mostBefore := 21, mostZeros := 6 }

/-- Writes digits by a layout. -/
def Digits.write (layout : Layout) (d : Digits) : List Char :=
  let ds := Nat.toDigits 10 d.digits
  let point : Int := ds.length + d.exponent
  if 0 ≤ d.exponent ∧ point ≤ layout.mostBefore then ds ++ List.replicate d.exponent.toNat '0'
  else if 0 < point ∧ point ≤ layout.mostBefore then
    ds.take point.toNat ++ '.' :: ds.drop point.toNat
  else if point ≤ 0 ∧ -layout.mostZeros < point then
    '0' :: '.' :: List.replicate (-point).toNat '0' ++ ds
  else
    let exponent := point - 1
    let fraction := match ds.drop 1 with
      | [] => []
      | rest => '.' :: rest
    ds.take 1 ++ fraction ++ 'e' :: (if exponent < 0 then '-' else '+') ::
      Nat.toDigits 10 exponent.natAbs

/-- The text of a number. Both zeros are written without a sign. -/
def write : Number → List Char
  | nan => ['N', 'a', 'N']
  | infinite negative => (if negative then ['-'] else []) ++ "Infinity".toList
  | finite negative m e =>
    if m = 0 then ['0']
    else (if negative then ['-'] else []) ++ (shortest m e).write layout

/-- The text of a number as a string. -/
def text (n : Number) : String := String.ofList n.write

end LayeredSettings.Number
