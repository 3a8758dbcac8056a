import LayeredSettings.Failure
import LayeredSettings.Number.Reading

/-!
# The tree of a sectioned text

Sections hold options, and an option holds a constant, a text, a number, a list, or an object if
its value is JSON. A list has items under their indices and, as any other thing with members, can
be given members under other names; these are never listed, but some of them take away what makes
the text of a list. Texts of nodes are what options are read as; some nodes have none.
-/

namespace LayeredSettings.Ini

/-- A node of the tree. -/
inductive Node where
  | flag (b : Bool)
  | null
  | number (n : Number)
  | text (s : String)
  | array (length : Nat) (members : List (String × Node))
  /-- A section, or an object that came as JSON; the latter is `ordinary`. -/
  | object (ordinary : Bool) (members : List (String × Node))
deriving Inhabited

namespace Node

/-- A section without options. -/
def emptySection : Node := object false []

/-- A list of given items. -/
def ofItems (items : List Node) : Node :=
  array items.length (items.zipIdx.map fun (item, i) => (toString i, item))

mutual

/-- The node of a value. -/
def ofValue : Value → Node
  | .bool b => flag b
  | .num n => number n
  | .str s => text s
  | .list items => ofItems (ofValues items)
  | .map members => object true (ofMembers members)
  | _ => null

/-- The nodes of values. -/
def ofValues : List Value → List Node
  | [] => []
  | v :: rest => ofValue v :: ofValues rest

/-- The members of a map as nodes. -/
def ofMembers : List (String × Value) → List (String × Node)
  | [] => []
  | (name, v) :: rest => (name, ofValue v) :: ofMembers rest

end

/-! ## Texts -/

/-- The texts of the items of a list, given with their indices in ascending order from `next` on. An
item that is not there has the empty text. -/
def spread (next length : Nat) : List (Nat × String) → List String
  | [] => List.replicate (length - next) ""
  | (i, s) :: rest => List.replicate (i - next) "" ++ s :: spread (i + 1) length rest

/-- The greatest length of a list whose items can be joined to one text. -/
def longestJoined : Nat := 536870889

/-- The text of a list whose items have these texts. -/
def join (length : Nat) (items : List (Nat × String)) : Except StructureFault String :=
  if longestJoined < length then .error .badLength
  else .ok (",".intercalate (spread 0 length items))

/-- Whether a list with these members has lost what makes its text: a member of its own stands in
the place of that. -/
def isSpoiled (members : List (String × Node)) : Bool :=
  ["toString", "__proto__"].any (Members.has members)

mutual

/-- The text of a node, if it has one. Of objects only ordinary ones do. -/
def text? : Node → Except StructureFault String
  | flag b => .ok (if b then "true" else "false")
  | null => .ok "null"
  | number n => .ok n.text
  | text s => .ok s
  | array length members =>
    if isSpoiled members then .error .textlessItem
    else if Members.has members "join" then .ok "[object Array]"
    else (innerTexts members).bind (join length)
  | object ordinary members =>
    if ordinary && !members.any (·.1 == "toString") then .ok "[object Object]"
    else .error .textlessItem

/-- The texts of the items among the members of a list, with their indices. Null has none. -/
def innerTexts : List (String × Node) → Except StructureFault (List (Nat × String))
  | [] => .ok []
  | (_, null) :: rest => innerTexts rest
  | (name, node) :: rest =>
    match Members.arrayIndex? name with
    | some i =>
      match text? node, innerTexts rest with
      | .ok s, .ok items => .ok ((i, s) :: items)
      | .error e, _ => .error e
      | _, .error e => .error e
    | none => innerTexts rest

end

/-- The text of a member of a list that is an option, with its index if it is an item. -/
def itemText? (name : String) (node : Node) : Except StructureFault (Option (Nat × String)) :=
  match Members.arrayIndex? name with
  | some i => (text? node).map fun s => some (i, s)
  | none => .ok none

/-- The names under which a list needs what it has by nature, if its items are to be taken one by
one. -/
def neededNames : List String := ["map", "__proto__"]

/-- Whether the items of a list with these members can be taken one by one. -/
def isTraversable (members : List (String × Node)) : Bool :=
  !neededNames.any (Members.has members) &&
    match Members.get? members "constructor" with
    | some null => false
    | _ => true

/-- The text that an option with this value is read as. Unlike inside another list, an item that is
null counts. -/
def optionText (node : Node) : Except StructureFault String :=
  match node with
  | array length members =>
    if isTraversable members then
      (members.mapM fun (name, node) => itemText? name node).bind fun items =>
        join length (items.filterMap id)
    else .error .textlessItem
  | node => text? node

/-! ## Lengths -/

/-- The number that a node counts as, if it is one. -/
def number? (node : Node) : Except StructureFault (Option Number) :=
  match node with
  | flag b => .ok (some (Number.ofNat (if b then 1 else 0)))
  | null => .ok (some (Number.zero false))
  | number n => .ok (some n)
  | text s => .ok (Number.ofText? s.toList)
  | node => (text? node).map fun s => Number.ofText? s.toList

/-- The length that a node names. -/
def length? (node : Node) : Except StructureFault Nat := do
  match (← number? node).bind Number.toInt? with
  | some n => if 0 ≤ n ∧ n < 4294967296 then return n.toNat else throw .badLength
  | none => throw .badLength

/-! ## Members -/

/-- Whether a node can have members. -/
def isContainer : Node → Bool
  | array _ _ | object _ _ => true
  | _ => false

/-- Whether a node is null. -/
def isNull : Node → Bool
  | null => true
  | _ => false

/-- The member of a node under a name. -/
def member? (node : Node) (name : String) : Option Node :=
  match node with
  | array length members =>
    if name = "length" then some (number (Number.ofNat length)) else Members.get? members name
  | object _ members => Members.get? members name
  | _ => none

/-- Gives a node a member. The length of a list follows its items, and giving a list a length drops
the items beyond. An ordinary object that is given another thing to inherit from is ordinary no
more. What cannot have members stays as it is. -/
def setMember (node : Node) (name : String) (part : Node) : Except StructureFault Node :=
  match node with
  | array length members =>
    if name = "length" then do
      let n ← length? part
      return array n (members.filter fun entry =>
        (Members.arrayIndex? entry.1).all (· < n))
    else
      let length := match Members.arrayIndex? name with
        | some i => max length (i + 1)
        | none => length
      .ok (array length (Members.set members name part))
  | object ordinary members =>
    if ordinary && name == "__proto__" && !Members.has members name then
      .ok (if part.isContainer || part.isNull then object false members else node)
    else .ok (object ordinary (Members.set members name part))
  | node => .ok node

/-- Adds an item at the end of a list. -/
def push (length : Nat) (members : Members Node) (item : Node) : Node :=
  array (length + 1) (members.set (toString length) item)

end Node

end LayeredSettings.Ini
