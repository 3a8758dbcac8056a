import LayeredSettings.Yaml.Node

/-!
# Documents

A text holds one document: directives, then a line of three dashes if there are any, then a node.
A text with several documents is refused, and one with none stands for no value.
-/

namespace LayeredSettings.Yaml

open Read

/-! ## Directives -/

/-- The parameters of a directive: what stands between white space, up to a comment. -/
def directiveArguments (line : List Char) : List (List Char) :=
  let words := (line.map fun c => if isWhite c then ' ' else c).splitOn ' '
  (words.filter (!·.isEmpty)).takeWhile fun word => word.head? != some '#'

/-- Whether a text names a version of YAML 1. -/
def isVersion (text : List Char) : Bool :=
  match text.splitOn '.' with
  | [major, minor] =>
    !major.isEmpty && major.all Text.isDigit && !minor.isEmpty && minor.all Text.isDigit &&
      Number.ofDigits 10 major == 1
  | _ => false

/-- What the directives of a document say. -/
structure Directives where
  versioned : Bool
  handles : Members String

/-- Takes a directive into account. Those that are not known mean nothing. -/
def Directives.add (d : Directives) (name : List Char) (words : List (List Char)) :
    Except Fault Directives :=
  if name.isEmpty then .error .badDirective
  else if name = "YAML".toList then
    match words with
    | [version] =>
      if d.versioned || !isVersion version then .error .badDirective
      else .ok { d with versioned := true }
    | _ => .error .badDirective
  else if name = "TAG".toList then
    match words with
    | [handle, start] =>
      let handleText := String.ofList handle
      if !isTagHandle handle || d.handles.has handleText || !isTagText start then
        .error .badDirective
      else match percentDecode start with
        | some start => .ok { d with handles := d.handles.set handleText start }
        | none => .error .badDirective
    | _ => .error .badDirective
  else .ok d

/-- Reads the directives that stand here. Returns also whether there are any. -/
def readDirectives (fuel : Nat) (d : Directives) (directed : Bool) : Read (Directives × Bool) := do
  match fuel with
  | 0 => return (d, directed)
  | fuel + 1 =>
    let _ ← separate
    let c ← cursor
    match c.rest with
    | '%' :: rest =>
      if 0 < c.indent then return (d, directed)
      let line := rest.takeWhile fun ch => !isBreak ch
      let name := line.takeWhile fun ch => !isWhite ch
      let d ← d.add name (directiveArguments (line.drop name.length))
      let c := c.advance (line.length + 1)
      moveTo ((c.breakLine?).getD c)
      readDirectives fuel d true
    | _ => return (d, directed)

/-! ## Documents -/

/-- Reads a document and what separates it from the next. -/
def readDocument : Read Value := do
  let c ← cursor
  let (d, directed) ← readDirectives (c.rest.length + 1) { versioned := false, handles := [] } false
  modify fun r => { r with anchors := [], begun := [], handles := d.handles }
  let _ ← separate
  let c ← cursor
  if c.indent = 0 ∧ "---".toList.isPrefixOf c.rest then
    advance 3
    let _ ← separate
  else if directed then throw .badDirective
  let c ← cursor
  let node ← readNested maxDepth ((c.indent : Int) - 1) .blockOut false true
  let _ ← separate
  let c ← cursor
  if c.atSeparator then
    if c.peek = some '.' then
      advance 3
      let _ ← separate
  else if 2 ≤ c.rest.length then throw .endExpected
  return node.value

/-- Reads documents as long as more than a last line break is left. -/
def readDocuments (fuel : Nat) : Read (List Value) := do
  match fuel with
  | 0 => return []
  | fuel + 1 =>
    if 2 ≤ (← cursor).rest.length then
      let v ← readDocument
      return v :: (← readDocuments fuel)
    else return []

/-- A text whose last line has an end, without a byte order mark. -/
def prepared (text : List Char) : List Char :=
  let ended := match text.getLast? with
    | some c => if isBreak c then text else text ++ ['\n']
    | none => text
  if ended.head? = some '\ufeff' then ended.drop 1 else ended

/-- The value of a text that is one YAML document; absent if it holds none. -/
def load (text : List Char) : Except Fault Value := do
  let text := prepared text
  if text.contains '\x00' then throw .nullByte
  let margin := text.takeWhile (· == ' ')
  let c := { (Cursor.start text).advance margin.length with indent := margin.length }
  let reading : Reading := { cursor := c, anchors := [], begun := [], handles := [] }
  let documents ← (readDocuments (text.length + 1)).run' reading
  match documents with
  | [] => return .absent
  | [v] => return v
  | _ => throw .severalDocuments

end LayeredSettings.Yaml
