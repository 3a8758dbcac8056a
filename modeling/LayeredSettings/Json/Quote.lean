/-!
# Quoted text

The quoting of JSON: quotation marks, backslashes and the control characters below the space are
escaped, and every other character stands for itself.
-/

namespace LayeredSettings.Json

/-- A digit of sixteen, in lower case. -/
def hexDigit (n : Nat) : Char :=
  if n < 10 then Char.ofNat ('0'.toNat + n) else Char.ofNat ('a'.toNat + (n - 10))

/-- The written form of one character. -/
def escape (c : Char) : List Char :=
  if c = '"' then ['\\', '"']
  else if c = '\\' then ['\\', '\\']
  else if c = '\x08' then ['\\', 'b']
  else if c = '\t' then ['\\', 't']
  else if c = '\n' then ['\\', 'n']
  else if c = '\x0c' then ['\\', 'f']
  else if c = '\r' then ['\\', 'r']
  else if c.toNat < 0x20 then
    ['\\', 'u', '0', '0', hexDigit (c.toNat / 16), hexDigit (c.toNat % 16)]
  else [c]

/-- The written form of a text, between quotation marks. -/
def quote (cs : List Char) : List Char := '"' :: (cs.flatMap escape ++ ['"'])

end LayeredSettings.Json
