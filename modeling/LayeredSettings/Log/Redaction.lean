import LayeredSettings.Value.Basic

/-!
# Redaction

The values under sensitive names are replaced before they are written. Every value with members
becomes a map of its redacted members; a list stays a list. What holds neither is left as it is.
A value without an end may have one once what stands under sensitive names is gone.
-/

namespace LayeredSettings.Log

/-- What stands in place of a sensitive value. -/
def redacted : Value := .str "***REDACTED***"

/-- The words that make a name sensitive, in any case of their ASCII letters. -/
def sensitiveWords : List String :=
  ["secret", "password", "token", "accesskey", "access-key", "access_key"]

/-- Whether a text contains a word. -/
def containsWord (word : List Char) : List Char → Bool
  | [] => word.isEmpty
  | c :: rest => word.isPrefixOf (c :: rest) || containsWord word rest

/-- Whether the values of a name are replaced. -/
def isSensitive (name : String) : Bool :=
  let letters := name.toList.map Char.toLower
  sensitiveWords.any fun word => containsWord word.toList letters

/-- The one name that a redacted map cannot hold. -/
def isDropped (name : String) : Bool := name == "__proto__"

mutual

/-- A value with its sensitive parts replaced. -/
def redact : Value → Value
  | .list items => .list (redactItems items)
  | .map members => .map (redactMembers members)
  | .date _ => .map []
  | .bytes data => .map (Value.bytes data).members
  | .loop mark v => (redact v).closed mark
  | v => v

/-- Items with their sensitive parts replaced. -/
def redactItems : List Value → List Value
  | [] => []
  | item :: rest => redact item :: redactItems rest

/-- Members with their sensitive parts replaced. -/
def redactMembers : List (String × Value) → List (String × Value)
  | [] => []
  | (name, part) :: rest =>
    if isDropped name then redactMembers rest
    else (name, if isSensitive name then redacted else redact part) :: redactMembers rest

end

end LayeredSettings.Log
