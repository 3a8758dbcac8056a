import LayeredSettings.Yaml.Schema

/-!
# Pairs of a mapping

A mapping collects pairs of keys and values. Keys are texts. A merge key takes over the members of
other mappings that are not there yet; a key of the mapping's own takes the place of a merged one,
but not of another of its own.
-/

namespace LayeredSettings.Yaml

/-- The members of a mapping so far, and the names of those that were merged. -/
structure Pairs where
  members : Members Value
  merged : List String

namespace Pairs

/-- No pairs. -/
def empty : Pairs := { members := [], merged := [] }

/-- The text of a key. The items of a list that is a key are no lists. -/
def keyText (begun : Begun) (key : Value) : Except Fault String :=
  match begun.current key with
  | .list items =>
    let items := items.map begun.current
    if items.any fun | .list _ => true | _ => false then .error .compositeKey
    else .ok (Value.list items).text
  | key => .ok key.text

/-- The members that a value has to merge, if it may be merged. -/
def sourceOf (begun : Begun) (v : Value) : Except Fault (Members Value) :=
  match begun.current v with
  | .map members => .ok members
  | .list items => .ok (Value.indexed items)
  | .date _ => .ok []
  | .bytes data => .ok (Value.bytes data).members
  | _ => .error .unmergeable

/-- Takes over the members of a value that are not there yet. -/
def merge (begun : Begun) (pairs : Pairs) (source : Value) : Except Fault Pairs :=
  (sourceOf begun source).map fun members =>
    members.foldl
      (fun pairs (name, part) =>
        if pairs.members.has name then pairs
        else { members := pairs.members.set name part, merged := name :: pairs.merged })
      pairs

/-- Adds a pair with a key of the mapping's own. -/
def put (pairs : Pairs) (name : String) (part : Value) : Except Fault Pairs :=
  if pairs.members.has name && !pairs.merged.contains name then .error .duplicateKey
  else .ok
    { members := pairs.members.set name part, merged := pairs.merged.filter (· ≠ name) }

/-- Adds a pair. The sources of a merge key are one value or several in a list. -/
def add (begun : Begun) (pairs : Pairs) (keyTag : Option String) (key part : Value) :
    Except Fault Pairs := do
  let name ← keyText begun key
  if keyTag = some NodeType.merge.tag then
    match begun.current part with
    | .list sources => sources.foldlM (merge begun) pairs
    | _ => merge begun pairs part
  else pairs.put name part

/-- The map of the pairs. -/
def toValue (pairs : Pairs) : Value := .map pairs.members

end Pairs

end LayeredSettings.Yaml
