/-!
# Sixteen-bit units

Escapes in quoted text may name a character above the basic plane by its two surrogate halves.
Readers therefore collect numbers, either code points or halves, and join them at the end.
-/

namespace LayeredSettings.Text

/-- The first half of a character above the basic plane. -/
def isHighHalf (n : Nat) : Bool := 0xD800 ≤ n && n ≤ 0xDBFF

/-- The second half of a character above the basic plane. -/
def isLowHalf (n : Nat) : Bool := 0xDC00 ≤ n && n ≤ 0xDFFF

/-- The character of a code point; a half that stands alone becomes the replacement character. -/
def charOfUnit (n : Nat) : Char :=
  if isHighHalf n || isLowHalf n then '\ufffd' else Char.ofNat n

/-- Joins each high half with the low half that follows it. -/
def ofUnits : List Nat → List Char
  | [] => []
  | [n] => [charOfUnit n]
  | n :: m :: rest =>
    if isHighHalf n && isLowHalf m then
      Char.ofNat (0x10000 + (n - 0xD800) * 0x400 + (m - 0xDC00)) :: ofUnits rest
    else charOfUnit n :: ofUnits (m :: rest)

end LayeredSettings.Text
