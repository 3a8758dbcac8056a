import LayeredSettings.Members
import LayeredSettings.Number.Reading
import LayeredSettings.Text.Utf8
import LayeredSettings.Yaml.Cursor

/-!
# Tags and anchors

The properties that may stand before a node. A tag is written in full between angle brackets, or as
a handle with a suffix, the handle standing for a part that a directive gives. Percent escapes in
tags stand for the bytes of characters.
-/

namespace LayeredSettings.Yaml

/-! ## Tag names -/

/-- What the tags of the YAML repository begin with. -/
def yamlTag (name : String) : String := "tag:yaml.org,2002:" ++ name

/-- The tag of a plain scalar whose type follows from its text. -/
def plainTag : String := "?"

/-- The tag of a node that is left as it is. -/
def bareTag : String := "!"

/-! ## Percent escapes -/

/-- The bytes that a text with percent escapes stands for. -/
def percentBytes : List Char → Option (List UInt8)
  | [] => some []
  | '%' :: a :: b :: rest =>
    if Number.isHexDigit a && Number.isHexDigit b then
      (percentBytes rest).map (UInt8.ofNat (Number.ofDigits 16 [a, b]) :: ·)
    else none
  | c :: rest =>
    if c = '%' then none
    else (percentBytes rest).map (Text.Utf8.encode (String.singleton c) ++ ·)

/-- The text that percent escapes stand for, if their bytes are text. -/
def percentDecode (cs : List Char) : Option String :=
  match percentBytes cs with
  | none => none
  | some bytes =>
    let text := String.ofList (Text.Utf8.decode bytes)
    if Text.Utf8.encode text = bytes then some text else none

/-! ## The form of tags -/

/-- The characters, beside ASCII letters and digits, that may stand in a tag. -/
def tagPunctuation : List Char := "-#;/?:@&=+$,_.!~*'()[]".toList

/-- ASCII letters and digits. -/
def isTagLetter (c : Char) : Bool := c.isAlpha || c.isDigit

/-- Whether a text may follow the first character of a tag. -/
def isTagTail : List Char → Bool
  | [] => true
  | '%' :: a :: b :: rest => Number.isHexDigit a && Number.isHexDigit b && isTagTail rest
  | c :: rest => (isTagLetter c || tagPunctuation.contains c) && isTagTail rest

/-- Whether a text has the form of a tag. The first character may be almost any. -/
def isTagText : List Char → Bool
  | [] => false
  | c :: rest => !isFlowIndicator c && c.toNat ≤ 0xffff && isTagTail rest

/-- Whether a text is a handle: one or two exclamation marks, or letters, digits and hyphens between
two. -/
def isTagHandle (handle : List Char) : Bool :=
  match handle with
  | ['!'] => true
  | ['!', '!'] => true
  | '!' :: rest =>
    rest.getLast? == some '!' && rest.length ≥ 2 &&
      rest.dropLast.all fun c => isTagLetter c || c == '-'
  | _ => false

/-- The text of a tag without its escapes. -/
def tagText (cs : List Char) : Except Fault String :=
  if !cs.isEmpty && !isTagText cs then .error .badTag
  else match percentDecode cs with
    | some text => .ok text
    | none => .error .badTag

/-! ## Reading properties -/

/-- Splits the text after a first exclamation mark into a handle and a suffix. Before the first
further exclamation mark stands the name of the handle. -/
def splitTag (cs : List Char) : Except Fault (List Char × List Char) :=
  match cs with
  | '!' :: suffix => if suffix.contains '!' then .error .badTag else .ok (['!', '!'], suffix)
  | _ =>
    if cs.contains '!' then
      let handle := '!' :: (cs.takeWhile (· ≠ '!') ++ ['!'])
      let suffix := (cs.dropWhile (· ≠ '!')).drop 1
      if isTagHandle handle && !suffix.contains '!' then .ok (handle, suffix) else .error .badTag
    else .ok (['!'], cs)

/-- The tag that a handle and a suffix make. -/
def joinTag (handles : Members String) (handle : List Char) (suffix : String) :
    Except Fault String :=
  match handles.get? (String.ofList handle) with
  | some start => .ok (start ++ suffix)
  | none =>
    if handle = ['!'] then .ok (bareTag ++ suffix)
    else if handle = ['!', '!'] then .ok (yamlTag suffix)
    else .error .badTag

/-- Reads a tag, if one stands here. -/
def readTag (handles : Members String) (c : Cursor) : Except Fault (Option (String × Cursor)) :=
  match c.rest with
  | '!' :: '<' :: rest => do
    -- the first character never closes the bracket
    let body := rest.take 1 ++ (rest.drop 1).takeWhile (· ≠ '>')
    if (rest.drop body.length).isEmpty then throw .badTag
    let tag ← tagText body
    return some (tag, c.advance (body.length + 3))
  | '!' :: rest => do
    let body := rest.takeWhile fun ch => !isGap ch
    let (handle, suffix) ← splitTag body
    if suffix.any isFlowIndicator then throw .badTag
    let tag ← joinTag handles handle (← tagText suffix)
    return some (tag, c.advance (body.length + 1))
  | _ => .ok none

/-- The name that an anchor or an alias gives. -/
def anchorName (rest : List Char) : Except Fault String :=
  let name := rest.takeWhile fun ch => !isGap ch && !isFlowIndicator ch
  if name.isEmpty then .error .namelessAnchor else .ok (String.ofList name)

/-- Reads an anchor, if one stands here. -/
def readAnchor (c : Cursor) : Except Fault (Option (String × Cursor)) :=
  match c.rest with
  | '&' :: rest => do
    let name ← anchorName rest
    return some (name, c.advance (name.length + 1))
  | _ => .ok none

end LayeredSettings.Yaml
