import LayeredSettings.Number.Basic
import LayeredSettings.Text.Blank

/-!
# Reading numbers

Digits are read with their exact value; rounding happens once, when the number is made.
-/

namespace LayeredSettings.Number

/-- The value of a digit of a base up to sixteen. -/
def digitValue (c : Char) : Nat :=
  if '0' ≤ c ∧ c ≤ '9' then c.toNat - '0'.toNat
  else if 'a' ≤ c ∧ c ≤ 'f' then c.toNat - 'a'.toNat + 10
  else if 'A' ≤ c ∧ c ≤ 'F' then c.toNat - 'A'.toNat + 10
  else 0

/-- Whether the character is a digit of sixteen. -/
def isHexDigit (c : Char) : Bool :=
  ('0' ≤ c && c ≤ '9') || ('a' ≤ c && c ≤ 'f') || ('A' ≤ c && c ≤ 'F')

/-- The natural number that digits spell in a base. -/
def ofDigits (base : Nat) (digits : List Char) : Nat :=
  digits.foldl (fun n c => base * n + digitValue c) 0

/-- The number of a decimal numeral with digits before and after the point and an exponent. -/
def ofParts (negative : Bool) (whole fraction : List Char) (exponent : Int) : Number :=
  ofDecimal negative (ofDigits 10 (whole ++ fraction)) (exponent - (fraction.length : Int))

/-- The number that a sign and digits spell in a base. -/
def ofNumeral (negative : Bool) (base : Nat) (digits : List Char) : Number :=
  let n := ofNat (ofDigits base digits)
  if negative then n.negate else n

/-- Splits a sign off; without one the sign is positive. -/
def splitSign : List Char → Bool × List Char
  | '-' :: rest => (true, rest)
  | '+' :: rest => (false, rest)
  | cs => (false, cs)

/-- Reads the exponent of a numeral, if one stands here: a letter, a sign if there is one, and at
least one digit. -/
def exponent? : List Char → Option (Int × List Char)
  | c :: cs =>
    if c == 'e' || c == 'E' then
      let (negative, cs) := splitSign cs
      let digits := cs.takeWhile Text.isDigit
      if digits.isEmpty then none
      else
        let n : Int := ofDigits 10 digits
        some (if negative then -n else n, cs.dropWhile Text.isDigit)
    else none
  | [] => none

/-- The number that an unsigned decimal numeral spells: digits before or after a point, or both, and
an exponent if there is one. -/
def ofDecimalText? (negative : Bool) (cs : List Char) : Option Number :=
  let whole := cs.takeWhile Text.isDigit
  let rest := cs.dropWhile Text.isDigit
  let (fraction, rest) := match rest with
    | '.' :: rest => (rest.takeWhile Text.isDigit, rest.dropWhile Text.isDigit)
    | _ => ([], rest)
  if whole.isEmpty && fraction.isEmpty then none
  else if rest.isEmpty then some (ofParts negative whole fraction 0)
  else match exponent? rest with
    | some (e, []) => some (ofParts negative whole fraction e)
    | _ => none

/-- The number of a text that is a whole decimal numeral: white space, at most one sign, at least
one digit, white space. -/
def ofWholeText? (raw : String) : Option Number :=
  let (negative, digits) := splitSign (Text.trim raw.toList)
  if digits.isEmpty || !digits.all Text.isDigit then none
  else some (ofNumeral negative 10 digits)

/-- Digits of a base, at least one. -/
def isDigitsOf (base : Nat) (digits : List Char) : Bool :=
  !digits.isEmpty && digits.all fun c => isHexDigit c && digitValue c < base

/-- The number that a text spells: a decimal numeral with a sign if there is one, a numeral of base
two, eight or sixteen, or infinity. A text of white space alone spells zero. -/
def ofText? (text : List Char) : Option Number :=
  let inBase (base : Nat) (digits : List Char) : Option Number :=
    if isDigitsOf base digits then some (ofNumeral false base digits) else none
  match Text.trim text with
  | [] => some (zero false)
  | '0' :: c :: digits =>
    if c == 'x' || c == 'X' then inBase 16 digits
    else if c == 'o' || c == 'O' then inBase 8 digits
    else if c == 'b' || c == 'B' then inBase 2 digits
    else ofDecimalText? false ('0' :: c :: digits)
  | cs =>
    let (negative, unsigned) := splitSign cs
    if unsigned == "Infinity".toList then some (infinite negative)
    else ofDecimalText? negative unsigned

end LayeredSettings.Number
