import LayeredSettings.Members
import LayeredSettings.Number.Reading
import LayeredSettings.Text.Units
import LayeredSettings.Value.Basic

/-!
# Reading JSON

A reader takes the remaining characters and returns what it read with the rest, or nothing where
the text is not JSON. Of several members of one name the last one counts, in the place of the
first. A text is read whole: nothing but white space may stand around the value.
-/

namespace LayeredSettings.Json

/-- The white space of JSON. -/
def isSpace (c : Char) : Bool := c == ' ' || c == '\t' || c == '\n' || c == '\r'

/-- Drops white space. -/
def skipSpace (cs : List Char) : List Char := cs.dropWhile isSpace

/-- The unit that an escape of one letter stands for. -/
def escaped? : Char → Option Nat
  | '"' => some '"'.toNat
  | '\\' => some '\\'.toNat
  | '/' => some '/'.toNat
  | 'b' => some 0x08
  | 'f' => some 0x0c
  | 'n' => some 0x0a
  | 'r' => some 0x0d
  | 't' => some 0x09
  | _ => none

/-- The unit that four digits of sixteen name. -/
def hexUnit? (a b c d : Char) : Option Nat :=
  if [a, b, c, d].all Number.isHexDigit then some (Number.ofDigits 16 [a, b, c, d]) else none

/-- Reads quoted text after its opening quotation mark. -/
def readText : List Char → Option (List Nat × List Char)
  | [] => none
  | '"' :: rest => some ([], rest)
  | '\\' :: 'u' :: a :: b :: c :: d :: rest =>
    match hexUnit? a b c d, readText rest with
    | some unit, some (units, rest) => some (unit :: units, rest)
    | _, _ => none
  | '\\' :: c :: rest =>
    match escaped? c, readText rest with
    | some unit, some (units, rest) => some (unit :: units, rest)
    | _, _ => none
  | c :: rest =>
    if c.toNat < 0x20 || c == '\\' then none
    else match readText rest with
      | some (units, rest) => some (c.toNat :: units, rest)
      | none => none

/-- Reads a string after its opening quotation mark. -/
def readString (cs : List Char) : Option (String × List Char) :=
  (readText cs).map fun (units, rest) => (String.ofList (Text.ofUnits units), rest)

/-- Reads the fraction of a number, if there is one. -/
def readFraction : List Char → Option (List Char × List Char)
  | '.' :: cs =>
    let digits := cs.takeWhile Text.isDigit
    if digits.isEmpty then none else some (digits, cs.dropWhile Text.isDigit)
  | cs => some ([], cs)

/-- Reads a number. A whole part of several digits does not begin with a zero. -/
def readNumber (cs : List Char) : Option (Number × List Char) :=
  let (negative, cs) := match cs with
    | '-' :: rest => (true, rest)
    | cs => (false, cs)
  let whole := cs.takeWhile Text.isDigit
  if whole.isEmpty || (whole.head? == some '0' && whole.length > 1) then none
  else
    match readFraction (cs.dropWhile Text.isDigit) with
    | none => none
    | some (fraction, rest) =>
      let startsExponent := rest.head? == some 'e' || rest.head? == some 'E'
      match Number.exponent? rest with
      | some (exponent, rest) => some (Number.ofParts negative whole fraction exponent, rest)
      | none => if startsExponent then none
          else some (Number.ofParts negative whole fraction 0, rest)

mutual

/-- Reads a value. The fuel bounds the calls that are open at a time. -/
def readValue (fuel : Nat) (cs : List Char) : Option (Value × List Char) :=
  match fuel with
  | 0 => none
  | fuel + 1 =>
    match skipSpace cs with
    | 'n' :: 'u' :: 'l' :: 'l' :: rest => some (.null, rest)
    | 't' :: 'r' :: 'u' :: 'e' :: rest => some (.bool true, rest)
    | 'f' :: 'a' :: 'l' :: 's' :: 'e' :: rest => some (.bool false, rest)
    | '"' :: rest => (readString rest).map fun (s, rest) => (.str s, rest)
    | '[' :: rest =>
      match skipSpace rest with
      | ']' :: rest => some (.list [], rest)
      | rest => (readItems fuel rest).map fun (items, rest) => (.list items, rest)
    | '\x7b' :: rest =>
      match skipSpace rest with
      | '\x7d' :: rest => some (.map [], rest)
      | rest => (readMembers fuel rest).map fun (entries, rest) =>
          (.map (Members.ofList entries), rest)
    | rest => (readNumber rest).map fun (n, rest) => (.num n, rest)

/-- Reads the items of a list up to its closing bracket. -/
def readItems (fuel : Nat) (cs : List Char) : Option (List Value × List Char) :=
  match fuel with
  | 0 => none
  | fuel + 1 =>
    match readValue fuel cs with
    | none => none
    | some (item, rest) =>
      match skipSpace rest with
      | ',' :: rest => (readItems fuel rest).map fun (items, rest) => (item :: items, rest)
      | ']' :: rest => some ([item], rest)
      | _ => none

/-- Reads the members of a map up to its closing brace. -/
def readMembers (fuel : Nat) (cs : List Char) : Option (List (String × Value) × List Char) :=
  match fuel with
  | 0 => none
  | fuel + 1 =>
    match skipSpace cs with
    | '"' :: rest =>
      match readString rest with
      | none => none
      | some (name, rest) =>
        match skipSpace rest with
        | ':' :: rest =>
          match readValue fuel rest with
          | none => none
          | some (part, rest) =>
            match skipSpace rest with
            | ',' :: rest =>
              (readMembers fuel rest).map fun (entries, rest) => ((name, part) :: entries, rest)
            | '\x7d' :: rest => some ([(name, part)], rest)
            | _ => none
        | _ => none
    | _ => none

end

/-- The value of a text that is JSON as a whole. -/
def read? (cs : List Char) : Option Value :=
  match readValue (2 * cs.length + 2) cs with
  | some (v, rest) => if (skipSpace rest).isEmpty then some v else none
  | none => none

end LayeredSettings.Json
