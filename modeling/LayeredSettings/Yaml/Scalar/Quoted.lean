import LayeredSettings.Number.Reading
import LayeredSettings.Text.Units
import LayeredSettings.Yaml.Scalar.Plain

/-!
# Quoted scalars

Text between quotation marks. In single quotes only the quotation mark itself is special: it is
written twice. In double quotes a backslash begins an escape, and at the end of a line it joins the
next line without a space. White space around any other line break is dropped. The text is kept as
units, backwards, since an escape may name half a character.
-/

namespace LayeredSettings.Yaml

/-- Whether a character may stand unescaped between quotation marks. -/
def isQuotable (c : Char) : Bool := c == '\t' || 0x20 ≤ c.toNat

/-- The string of units that run backwards. -/
def ofReversedUnits (units : List Nat) : String := String.ofList (Text.ofUnits units.reverse)

/-- Text between quotation marks while it is read. Both parts run backwards. -/
structure QuotedText where
  /-- The text that will be kept. -/
  kept : List Nat
  /-- White space that is dropped if the line ends after it. -/
  blanks : List Nat

namespace QuotedText

/-- The text with the white space at its end. -/
def whole (t : QuotedText) : List Nat := t.blanks ++ t.kept

/-- Adds units that are kept in any case. -/
def keep (t : QuotedText) (units : List Nat) : QuotedText :=
  { kept := units ++ t.whole, blanks := [] }

/-- Adds a character that stands for itself. -/
def push (t : QuotedText) (c : Char) : QuotedText :=
  if isWhite c then { t with blanks := c.toNat :: t.blanks } else t.keep [c.toNat]

/-- Adds line breaks. -/
def fold (t : QuotedText) (breaks : Nat) : QuotedText :=
  { kept := (foldedBreaks breaks).map Char.toNat ++ t.kept, blanks := [] }

end QuotedText

/-! ## Single quotes -/

/-- Reads on after an opening single quote. -/
def readSingleFrom (fuel : Nat) (c : Cursor) (t : QuotedText) :
    Except Fault (List Nat × Cursor) :=
  match fuel with
  | 0 => .error .unclosedQuote
  | fuel + 1 =>
    match c.rest with
    | [] => .error .unclosedQuote
    | '\'' :: '\'' :: _ => readSingleFrom fuel (c.advance 2) (t.keep ['\''.toNat])
    | '\'' :: _ => .ok (t.whole, c.advance 1)
    | ch :: _ =>
      if isBreak ch then
        let (next, breaks) := c.separate false
        readSingleFrom fuel next (t.fold breaks)
      else if c.atSeparator then .error .unclosedQuote
      else if isQuotable ch then readSingleFrom fuel (c.advance 1) (t.push ch)
      else .error .unprintable

/-! ## Double quotes -/

/-- The unit that an escape of one letter stands for. -/
def escapedUnit? (c : Char) : Option Nat :=
  if c = '0' then some 0x00
  else if c = 'a' then some 0x07
  else if c = 'b' then some 0x08
  else if c = 't' ∨ c = '\t' then some 0x09
  else if c = 'n' then some 0x0a
  else if c = 'v' then some 0x0b
  else if c = 'f' then some 0x0c
  else if c = 'r' then some 0x0d
  else if c = 'e' then some 0x1b
  else if c = ' ' then some 0x20
  else if c = '"' then some 0x22
  else if c = '/' then some 0x2f
  else if c = '\\' then some 0x5c
  else if c = 'N' then some 0x85
  else if c = '_' then some 0xa0
  else if c = 'L' then some 0x2028
  else if c = 'P' then some 0x2029
  else none

/-- The number of digits that an escape by number has. -/
def escapeLength? (c : Char) : Option Nat :=
  if c = 'x' then some 2 else if c = 'u' then some 4 else if c = 'U' then some 8 else none

/-- The units of an escape by number, backwards. A number with its highest bit set counts as
negative, and only its low sixteen bits remain; one beyond the last character wraps round in each
half. -/
def unitsOfEscape (n : Nat) : List Nat :=
  if 0x80000000 ≤ n ∨ n ≤ 0xffff then [n % 0x10000]
  else
    let offset := n - 0x10000
    [offset % 0x400 + 0xdc00, (offset / 0x400 + 0xd800) % 0x10000]

/-- Reads on after an opening double quote. -/
def readDoubleFrom (fuel : Nat) (c : Cursor) (t : QuotedText) :
    Except Fault (List Nat × Cursor) :=
  match fuel with
  | 0 => .error .unclosedQuote
  | fuel + 1 =>
    match c.rest with
    | [] => .error .unclosedQuote
    | '"' :: _ => .ok (t.whole, c.advance 1)
    | '\\' :: [] => .error .badEscape
    | '\\' :: ch :: rest =>
      if isBreak ch then readDoubleFrom fuel ((c.advance 1).separate false).1 (t.keep [])
      else
        match escapedUnit? ch, escapeLength? ch with
        | some unit, _ => readDoubleFrom fuel (c.advance 2) (t.keep [unit])
        | none, some n =>
          let digits := rest.take n
          if digits.length = n ∧ digits.all Number.isHexDigit then
            readDoubleFrom fuel (c.advance (n + 2))
              (t.keep (unitsOfEscape (Number.ofDigits 16 digits)))
          else .error .badEscape
        | none, none => .error .badEscape
    | ch :: _ =>
      if isBreak ch then
        let (next, breaks) := c.separate false
        readDoubleFrom fuel next (t.fold breaks)
      else if c.atSeparator then .error .unclosedQuote
      else if isQuotable ch then readDoubleFrom fuel (c.advance 1) (t.push ch)
      else .error .unprintable

/-- Reads a quoted scalar, if one stands here. -/
def readQuoted (c : Cursor) : Except Fault (Option (String × Cursor)) :=
  let result := fun (reading : Except Fault (List Nat × Cursor)) =>
    reading.map fun (units, next) => some (ofReversedUnits units, next)
  let fuel := c.rest.length + 1
  match c.rest with
  | '\'' :: _ => result (readSingleFrom fuel (c.advance 1) { kept := [], blanks := [] })
  | '"' :: _ => result (readDoubleFrom fuel (c.advance 1) { kept := [], blanks := [] })
  | _ => .ok none

end LayeredSettings.Yaml
