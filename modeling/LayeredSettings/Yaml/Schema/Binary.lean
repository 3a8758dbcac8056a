/-!
# Binary data

Base 64 in the text of a scalar. Line breaks are passed over, and equals signs count as digits
when the length is checked but carry no data.
-/

namespace LayeredSettings.Yaml.Binary

/-- The digits of base 64, in order. -/
def digits : List Char :=
  "ABCDEFGHIJKLMNOPQRSTUVWXYZabcdefghijklmnopqrstuvwxyz0123456789+/".toList

/-- Whether a character is passed over. -/
def isIgnored (c : Char) : Bool := c == '\n' || c == '\r'

/-- The values of the digits, six bits each. -/
def sextets (text : List Char) : List Nat := text.filterMap digits.idxOf?

/-- The bytes of digits, three from each four. Of two digits left over the upper eight bits make a
byte, and of three the upper sixteen make two. -/
def group : List Nat → List UInt8
  | a :: b :: c :: d :: rest =>
    let bits := ((a * 64 + b) * 64 + c) * 64 + d
    UInt8.ofNat (bits / 65536) :: UInt8.ofNat (bits / 256) :: UInt8.ofNat bits :: group rest
  | [a, b, c] =>
    let bits := (a * 64 + b) * 64 + c
    [UInt8.ofNat (bits / 1024), UInt8.ofNat (bits / 4)]
  | [a, b] => [UInt8.ofNat ((a * 64 + b) / 16)]
  | _ => []

/-- The bytes of a text that is base 64 with whole bytes. No digits at all make three zero bytes. -/
def bytes? (text : List Char) : Option (List UInt8) :=
  let counted := text.filter fun c => !isIgnored c
  if counted.all (fun c => c = '=' || digits.contains c) && counted.length % 4 = 0 then
    let values := sextets counted
    some (if values.isEmpty then [0, 0, 0] else group values)
  else none

end LayeredSettings.Yaml.Binary
