import LayeredSettings.Number.Reading
import LayeredSettings.Text.Blank

/-!
# Numerals

The plain texts that read as numbers. Whole numbers may be written in base two, eight or sixteen;
a number too large for its format is not read as one.
-/

namespace LayeredSettings.Yaml.Numeral

/-- The number, unless it is infinite. -/
def finite? (n : Number) : Option Number :=
  match n with
  | .infinite _ => none
  | n => some n

/-- A signed numeral of a base, if its digits are of that base. -/
def inBase? (negative : Bool) (base : Nat) (digits : List Char) : Option Number :=
  if Number.isDigitsOf base digits then finite? (Number.ofNumeral negative base digits) else none

/-- The number of a text that is a whole number. A lone zero has no sign. -/
def integer? (text : List Char) : Option Number :=
  let (negative, digits) := Number.splitSign text
  match digits with
  | ['0'] => some (Number.zero false)
  | '0' :: 'b' :: rest => inBase? negative 2 rest
  | '0' :: 'x' :: rest => inBase? negative 16 rest
  | '0' :: 'o' :: rest => inBase? negative 8 rest
  | _ => inBase? negative 10 digits

/-- The number of a text with a point or an exponent. Before a leading point there is no sign. -/
def decimal? (text : List Char) : Option Number :=
  let (negative, unsigned) := Number.splitSign text
  if unsigned.head? = some '.' ∧ text.head? ≠ some '.' then none
  else (Number.ofDecimalText? negative unsigned).bind finite?

/-- The number of a text that names an infinity or no number. -/
def special? (text : List Char) : Option Number :=
  let (negative, unsigned) := Number.splitSign text
  if [".inf", ".Inf", ".INF"].contains (String.ofList unsigned) then some (.infinite negative)
  else if [".nan", ".NaN", ".NAN"].contains (String.ofList text) then some .nan
  else none

/-- The number of a text that is not a whole number by its form. -/
def float? (text : List Char) : Option Number := (special? text).or (decimal? text)

end LayeredSettings.Yaml.Numeral
