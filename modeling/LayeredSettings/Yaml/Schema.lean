import LayeredSettings.Value.Basic
import LayeredSettings.Yaml.Schema.Binary
import LayeredSettings.Yaml.Schema.Numeral
import LayeredSettings.Yaml.Schema.Timestamp
import LayeredSettings.Yaml.Tag

/-!
# The schema

Which value a node stands for. A plain scalar without a tag has the first type that its text
matches; a tag names the type, and the node must be of its kind and match it. What a node holds may
be a collection around it that has not been read to its end; what matters then is what there is of
it so far.
-/

namespace LayeredSettings.Yaml

/-! ## Collections that are being read -/

/-- What there is so far of the collections that are being read, by their marks. -/
abbrev Begun := List (Nat × Value)

/-- A value as it is looked into at the moment. -/
def Begun.current (begun : Begun) : Value → Value
  | .again mark => (begun.lookup mark).getD .null
  | v => v.unroll

/-! ## Types -/

/-- The kinds of nodes. -/
inductive Kind where
  | scalar
  | sequence
  | mapping
deriving DecidableEq, Repr

/-- The types that a tag can name. -/
inductive NodeType where
  | null | bool | int | float | timestamp | merge | binary | str
  | seq | omap | pairs
  | map | set
deriving DecidableEq, Repr

namespace NodeType

/-- The names of the types. -/
def names : List (NodeType × String) :=
  [(null, "null"), (bool, "bool"), (int, "int"), (float, "float"), (timestamp, "timestamp"),
    (merge, "merge"), (binary, "binary"), (str, "str"), (seq, "seq"), (omap, "omap"),
    (pairs, "pairs"), (map, "map"), (set, "set")]

/-- The tag of a type. -/
def tag (t : NodeType) : String := yamlTag ((names.lookup t).getD "")

/-- The type that a tag names. -/
def ofTag? (tag : String) : Option NodeType :=
  (names.find? fun entry => yamlTag entry.2 == tag).map (·.1)

/-- The kind of the nodes of a type. -/
def kind : NodeType → Kind
  | null | bool | int | float | timestamp | merge | binary | str => .scalar
  | seq | omap | pairs => .sequence
  | map | set => .mapping

/-! ## Scalars -/

/-- The truth value that a text names. -/
def bool? (s : String) : Option Bool :=
  if ["true", "True", "TRUE"].contains s then some true
  else if ["false", "False", "FALSE"].contains s then some false
  else none

/-- The value of a text at a scalar type, if the text matches it. -/
def ofText? (t : NodeType) (s : String) : Option Value :=
  match t with
  | null => if ["~", "null", "Null", "NULL"].contains s then some .null else none
  | bool => (bool? s).map .bool
  | int => (Numeral.integer? s.toList).map .num
  | float => (Numeral.float? s.toList).map .num
  | timestamp => (Timestamp.instant? s.toList).map .date
  | merge => if s = "<<" then some (.str s) else none
  | binary => (Binary.bytes? s.toList).map .bytes
  | str => some (.str s)
  | _ => none

/-- The types that a plain scalar is tried at, in order. -/
def plainTypes : List NodeType := [null, bool, int, float, timestamp, merge]

/-- The type and the value of a plain scalar, if its text matches a type other than text. -/
def ofPlain? (s : String) : Option (NodeType × Value) :=
  plainTypes.findSome? fun t => (ofText? t s).map fun v => (t, v)

/-! ## Collections -/

/-- The one member of a map that has only one. -/
def onlyMember? (begun : Begun) (v : Value) : Option (String × Value) :=
  match begun.current v with
  | .map [entry] => some entry
  | _ => none

/-- Whether items are maps of one member each, no two of them of one name. -/
def isOrdered (begun : Begun) (items : List Value) : Bool :=
  let entries := items.filterMap (onlyMember? begun)
  entries.length == items.length && (entries.map (·.1)).eraseDups.length == items.length

/-- The value of items at a sequence type, if they match it. -/
def ofItems? (begun : Begun) (t : NodeType) (items : List Value) : Option Value :=
  match t with
  | seq => some (.list items)
  | omap => if isOrdered begun items then some (.list items) else none
  | pairs =>
    let entries := items.filterMap (onlyMember? begun)
    if entries.length = items.length then
      some (.list (entries.map fun (name, part) => .list [.str name, part]))
    else none
  | _ => none

/-- Whether a value is null. -/
def isNull : Value → Bool
  | .null => true
  | _ => false

/-- The value of members at a mapping type, if they match it. -/
def ofMembers? (t : NodeType) (members : Members Value) : Option Value :=
  match t with
  | map => some (.map members)
  | set => if members.all fun entry => isNull entry.2 then some (.map members) else none
  | _ => none

/-- The value of an empty node of a type, if such a node may be empty. -/
def ofNothing? : NodeType → Option Value
  | null | merge => some .null
  | str => some (.str "")
  | seq | omap | pairs => some (.list [])
  | map | set => some (.map [])
  | _ => none

/-- The value at a type of what a node holds, if it matches. -/
def convert? (begun : Begun) (t : NodeType) (v : Value) : Option Value :=
  match begun.current v with
  | .null => ofNothing? t
  | .str s => ofText? t s
  | .list items => ofItems? begun t items
  | .map members => ofMembers? t members
  | _ => if t = str then some v else none

end NodeType

/-- The value of a node under a tag. A node without content has no kind, and only null has the
kind of every type then. -/
def resolveTag (begun : Begun) (tag : String) (kind : Option Kind) (v : Value) :
    Except Fault Value :=
  match NodeType.ofTag? tag with
  | none => .error .unknownTag
  | some t =>
    let fits := match kind with
      | some k => k == t.kind
      | none => NodeType.isNull v
    if !fits then .error .unknownTag
    else match t.convert? begun v with
      | some v => .ok v
      | none => .error .unresolvedTag

end LayeredSettings.Yaml
