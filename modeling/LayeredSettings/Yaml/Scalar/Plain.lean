import LayeredSettings.Yaml.Cursor

/-!
# Plain scalars

Text without quotation marks. It ends at a colon or before a comment, in a flow collection at an
indicator of the flow style too, and at a line that is indented less than the node. A line break
inside it reads as a space, and each further one as itself.
-/

namespace LayeredSettings.Yaml

/-- The characters, beside white space and the indicators of the flow style, that no plain scalar
begins with. -/
def plainStoppers : List Char := ['#', '&', '*', '!', '|', '>', '\'', '"', '%', '@', '\x60']

/-- The form of line breaks inside a scalar, backwards or forwards. -/
def foldedBreaks (breaks : Nat) : List Char :=
  if breaks = 1 then [' '] else List.replicate (breaks - 1) '\n'

/-- Whether a plain scalar can begin here. -/
def startsPlain (inFlow : Bool) : List Char → Bool
  | [] => false
  | c :: rest =>
    if isGap c || isFlowIndicator c || plainStoppers.contains c then false
    else if c = '?' ∨ c = '-' then !(startsWithGap rest || (inFlow && startsWithFlow rest))
    else true

/-- The text of a plain scalar while it is read. Text runs backwards. -/
structure PlainText where
  /-- The text that will be kept. -/
  kept : List Char
  /-- White space that is kept if more text follows. -/
  blanks : List Char
  /-- The position after the kept text. -/
  mark : Cursor
  /-- Line breaks passed since the kept text. -/
  pending : Option Nat
  /-- Whether the last character was white space or a line break. -/
  afterGap : Bool

/-- Reads on. Returns the text, backwards, and the position after it. -/
def readPlainFrom (fuel : Nat) (indent : Int) (inFlow : Bool) (c : Cursor) (t : PlainText) :
    List Char × Cursor :=
  match fuel with
  | 0 => (t.kept, c)
  | fuel + 1 =>
    match c.rest with
    | [] => (t.kept, c)
    | ch :: rest =>
      if ch = ':' ∧ (startsWithGap rest ∨ (inFlow ∧ startsWithFlow rest)) then (t.kept, c)
      else if ch = '#' ∧ t.afterGap then (t.kept, c)
      else if c.atSeparator ∨ (inFlow ∧ isFlowIndicator ch) then (t.kept, c)
      else if isBreak ch then
        let (next, breaks) := c.separate false
        if indent ≤ next.indent then
          readPlainFrom fuel indent inFlow next
            { t with blanks := [], pending := some breaks, afterGap := true }
        else (t.kept, { t.mark with tabbed := next.tabbed })
      else if isWhite ch then
        readPlainFrom fuel indent inFlow (c.advance 1)
          { t with blanks := ch :: t.blanks, afterGap := true }
      else
        let between := match t.pending with
          | some breaks => foldedBreaks breaks
          | none => t.blanks
        let next := c.advance 1
        readPlainFrom fuel indent inFlow next
          { kept := ch :: (between ++ t.kept), blanks := [], mark := next, pending := none
            afterGap := false }

/-- Reads a plain scalar, if one stands here. -/
def readPlain (indent : Int) (inFlow : Bool) (c : Cursor) :
    Except Fault (Option (String × Cursor)) :=
  if startsPlain inFlow c.rest then
    let (text, next) := readPlainFrom (c.rest.length + 1) indent inFlow c
      { kept := [], blanks := [], mark := c, pending := none, afterGap := false }
    if text.isEmpty then .ok none
    else if text.all isPrintable then .ok (some (String.ofList text.reverse, next))
    else .error .unprintable
  else .ok none

end LayeredSettings.Yaml
