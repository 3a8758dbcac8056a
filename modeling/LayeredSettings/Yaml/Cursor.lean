import LayeredSettings.Yaml.Fault

/-!
# Cursors

A cursor stands before the rest of a text and knows its line, its column, the indentation of its
line, and whether a tab has been met among the blanks of the line. Indentation is made of spaces
only, which is why tabs are kept track of.
-/

namespace LayeredSettings.Yaml

/-! ## Characters -/

/-- Spaces and tabs. -/
def isWhite (c : Char) : Bool := c == ' ' || c == '\t'

/-- The characters that end a line. -/
def isBreak (c : Char) : Bool := c == '\n' || c == '\r'

/-- The characters that separate tokens. -/
def isGap (c : Char) : Bool := isWhite c || isBreak c

/-- The characters that belong to the flow style. -/
def isFlowIndicator (c : Char) : Bool :=
  c == ',' || c == '[' || c == ']' || c == '\x7b' || c == '\x7d'

/-- Whether a character may stand in a plain or block scalar. -/
def isPrintable (c : Char) : Bool :=
  !(c.toNat ≤ 0x08 || c == '\x0b' || c == '\x0c' || (0x0e ≤ c.toNat && c.toNat ≤ 0x1f) ||
    (0x7f ≤ c.toNat && c.toNat ≤ 0x84) || (0x86 ≤ c.toNat && c.toNat ≤ 0x9f) ||
    c.toNat == 0xfffe || c.toNat == 0xffff)

/-- Whether the next character separates tokens. The end of the text does not. -/
def startsWithGap : List Char → Bool
  | [] => false
  | c :: _ => isGap c

/-- Whether the next character belongs to the flow style. -/
def startsWithFlow : List Char → Bool
  | [] => false
  | c :: _ => isFlowIndicator c

/-! ## Positions -/

/-- A position in a text. -/
structure Cursor where
  rest : List Char
  line : Nat
  column : Nat
  indent : Nat
  tabbed : Bool

namespace Cursor

/-- The beginning of a text. -/
def start (text : List Char) : Cursor :=
  { rest := text, line := 0, column := 0, indent := 0, tabbed := false }

/-- The next character. -/
def peek (c : Cursor) : Option Char := c.rest.head?

/-- Moves on by some characters of the line. -/
def advance (c : Cursor) (n : Nat) : Cursor :=
  { c with rest := c.rest.drop n, column := c.column + n }

/-- Moves on over all characters of a class. -/
def skipWhile (c : Cursor) (p : Char → Bool) : Cursor :=
  c.advance (c.rest.takeWhile p).length

/-- Moves on over a line break, whose rest is given. -/
def newLine (c : Cursor) (rest : List Char) : Cursor :=
  { c with rest, line := c.line + 1, column := 0, tabbed := false }

/-- Moves on over a line break, if one stands here. -/
def breakLine? (c : Cursor) : Option Cursor :=
  match c.rest with
  | '\r' :: '\n' :: rest => some (c.newLine rest)
  | '\n' :: rest => some (c.newLine rest)
  | '\r' :: rest => some (c.newLine rest)
  | _ => none

/-- Whether a line of three dashes or three dots begins here, which ends a document. -/
def atSeparator (c : Cursor) : Bool :=
  c.column == 0 &&
    match c.rest with
    | '-' :: '-' :: '-' :: rest => rest.isEmpty || startsWithGap rest
    | '.' :: '.' :: '.' :: rest => rest.isEmpty || startsWithGap rest
    | _ => false

/-! ## Separation -/

/-- What is skipped at the moment. -/
inductive Gap where
  /-- The spaces at the beginning of a line. -/
  | margin
  /-- Spaces and tabs. -/
  | blanks
  /-- A comment, up to the end of its line. -/
  | comment
deriving DecidableEq

/-- Skips white space, line breaks and, where they are allowed, comments. Returns the line breaks
passed too. The arguments but the last are the parts of a cursor. -/
def separateFrom (comments : Bool) (gap : Gap) (breaks line column indent : Nat) (tabbed : Bool) :
    List Char → Cursor × Nat
  | [] => ({ rest := [], line, column, indent, tabbed }, breaks)
  | '\r' :: '\n' :: rest => separateFrom comments .margin (breaks + 1) (line + 1) 0 0 false rest
  | c :: rest =>
    if isBreak c then separateFrom comments .margin (breaks + 1) (line + 1) 0 0 false rest
    else if gap = .comment then
      separateFrom comments gap breaks line (column + 1) indent tabbed rest
    else if c = ' ' then
      separateFrom comments gap breaks line (column + 1)
        (if gap = .margin then indent + 1 else indent) tabbed rest
    else if c = '\t' then separateFrom comments .blanks breaks line (column + 1) indent true rest
    else if c = '#' ∧ comments then
      separateFrom comments .comment breaks line (column + 1) indent tabbed rest
    else ({ rest := c :: rest, line, column, indent, tabbed }, breaks)

/-- Skips white space, line breaks and, where they are allowed, comments. -/
def separate (c : Cursor) (comments : Bool) : Cursor × Nat :=
  separateFrom comments .blanks 0 c.line c.column c.indent c.tabbed c.rest

end Cursor

end LayeredSettings.Yaml
