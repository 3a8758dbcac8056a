import LayeredSettings.Json.Reader

/-!
# Names and values of a sectioned text

A name or a value between quotation marks is JSON if it reads as JSON, single quotation marks
having been taken off; otherwise it is the text itself. Without quotation marks a text ends at a
comment, and a backslash keeps a comment sign, or a backslash, from being one.
-/

namespace LayeredSettings.Ini

/-- Whether a text begins and ends with the same quotation mark. A lone mark does both. -/
def isQuoted (cs : List Char) : Bool :=
  ['"', '\''].any fun mark => cs.head? == some mark && cs.getLast? == some mark

/-- The text before a comment, without the backslashes that stand before backslashes and comment
signs. -/
def unescape : List Char → List Char
  | [] => []
  | ['\\'] => ['\\']
  | '\\' :: c :: rest =>
    if c = '\\' ∨ c = ';' ∨ c = '#' then c :: unescape rest else '\\' :: c :: unescape rest
  | c :: rest => if c = ';' ∨ c = '#' then [] else c :: unescape rest

/-- Reads a name or a value. -/
def readScalar (cs : List Char) : Value :=
  let text := Text.trim cs
  if isQuoted text then
    let inner := if text.head? = some '\'' then (text.drop 1).dropLast else text
    (Json.read? inner).getD (.str (String.ofList inner))
  else .str (String.ofList (Text.trim (unescape text)))

end LayeredSettings.Ini
