import LayeredSettings.Failure
import LayeredSettings.Number.Reading
import LayeredSettings.Text.Case
import LayeredSettings.World.FileTree

/-!
# Transforms

A transform turns a raw value into the value of a setting. Variables arrive as text, while files
hold typed values, so a transform passes a value of its own kind through unchanged.
-/

namespace LayeredSettings

/-- A rule from raw values to values. It may look at files, and it may fail. -/
structure Transform where
  name : String
  run : FileTree → Value → Except Failure Value

namespace Transform

/-- The texts that mean `false`. -/
def falseTexts : List String := ["false", "0", "off", "no"]

/-- Every text but the empty one and those that mean `false` is true. -/
def bool : Transform where
  name := "bool"
  run _
    | .str s => .ok (.bool (s ≠ "" && !falseTexts.contains (Text.lowerCase s)))
    | v => .ok v

/-- Whole numbers, from their text too. -/
def int : Transform where
  name := "int"
  run _ v :=
    let parsed := match v with
      | .num n => if n.isInteger then some n else none
      | .str s => Number.ofWholeText? s
      | _ => none
    match parsed with
    | some n => .ok (.num n)
    | none => .error (.ofValue v "integer" none)

/-- The pieces of a text between its commas. -/
def list : Transform where
  name := "list"
  run _
    | .str s => .ok (Value.strings (Text.splitAt ',' s))
    | v => .ok v

/-- What an address of a name service begins with. -/
def dnsScheme : List Char := "dns:///".toList

/-- An address without the scheme of a name service. -/
def stripDns : Transform where
  name := "stripDns"
  run _
    | .str s =>
      .ok (.str (if dnsScheme.isPrefixOf s.toList then String.ofList (s.toList.drop 7) else s))
    | v => .ok v

/-- The trimmed text of the file that a value names, or the value itself if it names none. -/
def fileText : Transform where
  name := "readFile"
  run files
    | .str s =>
      match files.textOf? s with
      | some text => .ok (.str (String.ofList (Text.trim text)))
      | none => .ok (.str s)
    | v => .ok v

end Transform

end LayeredSettings
