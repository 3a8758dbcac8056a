/-!
# Reading UTF-8

Every byte sequence reads as text: a maximal part of a broken sequence is replaced by one
replacement character, and the byte that broke it is read afresh. A byte order mark is kept.
-/

namespace LayeredSettings.Text.Utf8

/-- What is left to read of a character: how many bytes, the range of the next one, and the bits
read so far. -/
structure Pending where
  missing : Nat
  low : UInt8
  high : UInt8
  bits : Nat

/-- A reader between two bytes: the text so far, backwards, and the character in progress. -/
structure State where
  text : List Char
  pending : Option Pending

/-- Reads a byte where a character begins. -/
def lead (text : List Char) (byte : UInt8) : State :=
  let start (missing : Nat) (low high : UInt8) (bits : Nat) : State :=
    { text, pending := some { missing, low, high, bits } }
  if byte < 0x80 then { text := Char.ofNat byte.toNat :: text, pending := none }
  else if 0xC2 ≤ byte && byte ≤ 0xDF then start 1 0x80 0xBF (byte.toNat - 0xC0)
  else if 0xE0 ≤ byte && byte ≤ 0xEF then
    -- the first continuation excludes overlong forms and surrogate halves
    start 2 (if byte == 0xE0 then 0xA0 else 0x80) (if byte == 0xED then 0x9F else 0xBF)
      (byte.toNat - 0xE0)
  else if 0xF0 ≤ byte && byte ≤ 0xF4 then
    start 3 (if byte == 0xF0 then 0x90 else 0x80) (if byte == 0xF4 then 0x8F else 0xBF)
      (byte.toNat - 0xF0)
  else { text := '\ufffd' :: text, pending := none }

/-- Reads one byte. -/
def step (state : State) (byte : UInt8) : State :=
  match state.pending with
  | none => lead state.text byte
  | some p =>
    if p.low ≤ byte && byte ≤ p.high then
      let bits := p.bits * 64 + (byte.toNat - 0x80)
      if p.missing ≤ 1 then { text := Char.ofNat bits :: state.text, pending := none }
      else
        { state with
          pending := some { missing := p.missing - 1, low := 0x80, high := 0xBF, bits } }
    else lead ('\ufffd' :: state.text) byte

/-- The text of a byte sequence. -/
def decode (bytes : List UInt8) : List Char :=
  let final := bytes.foldl step { text := [], pending := none }
  (if final.pending.isSome then '\ufffd' :: final.text else final.text).reverse

/-- The bytes of a text. -/
def encode (s : String) : List UInt8 := s.toUTF8.toList

end LayeredSettings.Text.Utf8
