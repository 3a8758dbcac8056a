import LayeredSettings.Yaml.Scalar.Plain

/-!
# Block scalars

Text in indented lines below a header. A literal scalar keeps its line breaks; a folded one joins
lines of equal indentation by spaces. The header may give the indentation, which is otherwise that
of the first line with text, and says which line breaks at the end are kept.
-/

namespace LayeredSettings.Yaml

/-- What becomes of the line breaks at the end. -/
inductive Chomping where
  /-- All are dropped. -/
  | strip
  /-- One is kept. -/
  | clip
  /-- All are kept. -/
  | keep
deriving DecidableEq

/-- The header of a block scalar: where the text stands and what is kept of its end. -/
structure BlockHeader where
  chomping : Option Chomping
  /-- The indentation that the header gives, counted from the node's. -/
  width : Option Nat

/-- Reads the indicators of a header. Each of the two may be given once, in any order. -/
def readIndicators (header : BlockHeader) : List Char → Except Fault (BlockHeader × Nat)
  | [] => .ok (header, 0)
  | c :: rest =>
    let next (header : BlockHeader) : Except Fault (BlockHeader × Nat) :=
      (readIndicators header rest).map fun (header, n) => (header, n + 1)
    if c = '+' ∨ c = '-' then
      if header.chomping.isSome then .error .badBlockHeader
      else next { header with chomping := some (if c = '+' then .keep else .strip) }
    else if '0' ≤ c ∧ c ≤ '9' then
      if c = '0' ∨ header.width.isSome then .error .badBlockHeader
      else next { header with width := some (c.toNat - '0'.toNat) }
    else .ok (header, 0)

/-- The text of a block scalar while it is read. Text runs backwards. -/
structure BlockText where
  text : List Char
  /-- The indentation of the text as far as it is known. -/
  indent : Int
  /-- Whether the indentation is final. -/
  settled : Bool
  /-- Whether a line with text has been read. -/
  started : Bool
  /-- The empty lines since then. -/
  empties : Nat
  /-- Whether the last line with text was indented more than the others. -/
  deeper : Bool

/-- The line breaks that stand for the empty lines before more text. -/
def BlockText.breaks (t : BlockText) : List Char :=
  List.replicate (if t.started then t.empties + 1 else t.empties) '\n'

/-- The characters between the text and a line that begins with `c`. -/
def BlockText.joint (t : BlockText) (folded : Bool) (c : Option Char) : List Char :=
  if !folded then t.breaks
  else if c.any isWhite then t.breaks
  else if t.deeper then List.replicate (t.empties + 1) '\n'
  else if t.empties = 0 then (if t.started then [' '] else [])
  else List.replicate t.empties '\n'

/-- The line breaks that are kept at the end. -/
def BlockText.ending (t : BlockText) : Chomping → List Char
  | .strip => []
  | .clip => if t.started then ['\n'] else []
  | .keep => t.breaks

/-- Reads the lines from a line break on. Returns the text, backwards, and the position of the
first line that is indented too little. -/
def readBlockLines (fuel : Nat) (folded : Bool) (chomping : Chomping) (c : Cursor)
    (t : BlockText) : Except Fault (List Char × Cursor) :=
  match fuel with
  | 0 => .ok (t.text, c)
  | fuel + 1 =>
    if c.rest.isEmpty then .ok (t.text, c)
    else match c.breakLine? with
      | none => .error .lineBreakExpected
      | some c =>
        let spaces := (c.rest.takeWhile (· == ' ')).length
        let taken := if t.settled then min spaces t.indent.toNat else spaces
        let c := { c.advance taken with indent := taken }
        let t := if t.settled then t else { t with indent := max t.indent taken }
        let first := c.peek
        if first.any isBreak then
          readBlockLines fuel folded chomping c { t with empties := t.empties + 1 }
        else if !t.settled ∧ t.indent = 0 then .error .missingIndentation
        else if (taken : Int) < t.indent then .ok (t.ending chomping ++ t.text, c)
        else
          let line := c.rest.takeWhile fun ch => !isBreak ch
          let deeper := folded && (first.any isWhite)
          if !line.all isPrintable then .error .unprintable
          else
            readBlockLines fuel folded chomping (c.advance line.length)
              { text := line.reverse ++ (t.joint folded first ++ t.text)
                indent := t.indent, settled := true, started := true, empties := 0, deeper }

/-- Skips the rest of a header: white space, and after it a comment. -/
def skipHeaderEnd (c : Cursor) : Cursor :=
  let next := c.skipWhile isWhite
  if next.column ≠ c.column ∧ next.peek = some '#' then next.skipWhile fun ch => !isBreak ch
  else next

/-- Reads a block scalar, if one stands here. -/
def readBlock (indent : Int) (c : Cursor) : Except Fault (Option (String × Cursor)) :=
  match c.rest with
  | [] => .ok none
  | style :: rest =>
    if style = '|' ∨ style = '>' then do
      let (header, n) ← readIndicators { chomping := none, width := none } rest
      let c := skipHeaderEnd (c.advance (n + 1))
      let text : BlockText :=
        { text := [], settled := header.width.isSome, started := false, empties := 0
          deeper := false
          indent := match header.width with
            | some width => indent + width - 1
            | none => indent }
      let (text, c) ← readBlockLines (c.rest.length + 1) (style = '>')
        (header.chomping.getD .clip) c text
      return some (String.ofList text.reverse, c)
    else .ok none

end LayeredSettings.Yaml
