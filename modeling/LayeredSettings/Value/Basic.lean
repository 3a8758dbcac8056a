import LayeredSettings.Calendar
import LayeredSettings.Members
import LayeredSettings.Number.Decimal

/-!
# Values

What a setting can be. Most values come from text, so this is the tree of a data format: scalars,
lists and maps, with the two further kinds that YAML adds, points in time and binary data. A value
that is not there is a value too, since a transform may return it. `function` is the one value
that is neither data nor absent: it is read where a raw option names a member that every table of
constants has.

YAML can name a collection within itself. Such a collection is a `loop` under a mark, and `again`
with this mark stands in it wherever it leads back to the whole. Whoever looks into it is given the
whole in these places, so that it has no end. A value whose marks all belong to loops around them
is closed, and values that are not part of another one are.
-/

namespace LayeredSettings

inductive Value where
  | absent
  | null
  | bool (b : Bool)
  | num (n : Number)
  | str (s : String)
  | list (items : List Value)
  | map (members : List (String × Value))
  | date (instant : Int)
  | bytes (data : List UInt8)
  | function (name : String)
  /-- A list or a map that leads back to itself. -/
  | loop (mark : Nat) (collection : Value)
  /-- The loop of this mark, within itself. -/
  | again (mark : Nat)
deriving Inhabited

namespace Value

/-- A list of strings. -/
def strings (items : List String) : Value := list (items.map str)

/-- A number from a natural number. -/
def ofNat (n : Nat) : Value := num (Number.ofNat n)

/-- Whether the value is absent. -/
def isAbsent : Value → Bool
  | absent => true
  | _ => false

/-! ## Values without an end -/

mutual

/-- The marks of loops around a value that it leads back to, once for each place where it does. -/
def marks : Value → List Nat
  | again mark => [mark]
  | loop mark v => (marks v).filter (· ≠ mark)
  | list items => itemMarks items
  | map ms => memberMarks ms
  | _ => []

/-- The marks that items lead back to. -/
def itemMarks : List Value → List Nat
  | [] => []
  | item :: rest => marks item ++ itemMarks rest

/-- The marks that members lead back to. -/
def memberMarks : List (String × Value) → List Nat
  | [] => []
  | (_, part) :: rest => marks part ++ memberMarks rest

end

mutual

/-- Whether a value leads back somewhere, so that one can go into it without an end. -/
def isEndless : Value → Bool
  | loop _ _ | again _ => true
  | list items => anyEndless items
  | map ms => anyMemberEndless ms
  | _ => false

/-- Whether an item leads back somewhere. -/
def anyEndless : List Value → Bool
  | [] => false
  | item :: rest => isEndless item || anyEndless rest

/-- Whether a member leads back somewhere. -/
def anyMemberEndless : List (String × Value) → Bool
  | [] => false
  | (_, part) :: rest => isEndless part || anyMemberEndless rest

end

mutual

/-- Puts a value wherever another one leads back to a mark. -/
def fill (mark : Nat) (whole : Value) : Value → Value
  | again other => if other = mark then whole else again other
  | loop other v => loop other (if other = mark then v else fill mark whole v)
  | list items => list (fillItems mark whole items)
  | map ms => map (fillMembers mark whole ms)
  | v => v

/-- Puts a value wherever items lead back to a mark. -/
def fillItems (mark : Nat) (whole : Value) : List Value → List Value
  | [] => []
  | item :: rest => fill mark whole item :: fillItems mark whole rest

/-- Puts a value wherever members lead back to a mark. -/
def fillMembers (mark : Nat) (whole : Value) : List (String × Value) → List (String × Value)
  | [] => []
  | (name, part) :: rest => (name, fill mark whole part) :: fillMembers mark whole rest

end

/-- The collection of a mark, which is a loop if it leads back to this mark. -/
def closed (mark : Nat) (v : Value) : Value := if v.marks.contains mark then loop mark v else v

/-- A value as it is looked into: a loop is the collection that leads back to the loop. -/
def unroll : Value → Value
  | loop mark v => fill mark (loop mark v) v
  | v => v

/-! ## Members -/

/-- Whether the value holds members rather than items. Points in time and binary data count. -/
def isMapping : Value → Bool
  | map _ | date _ | bytes _ | loop _ (map _) => true
  | _ => false

/-- Items under their indices. -/
def indexed (items : List Value) : Members Value :=
  items.zipIdx.map fun (item, i) => (toString i, item)

/-- The members of a value. A list has its items under their indices, and so has binary data. -/
def members : Value → Members Value
  | map ms => ms
  | list items => indexed items
  | loop mark (map ms) => fillMembers mark (loop mark (map ms)) ms
  | loop mark (list items) => indexed (fillItems mark (loop mark (list items)) items)
  | bytes data => data.zipIdx.map fun (byte, i) => (toString i, ofNat byte.toNat)
  | str s => s.toList.zipIdx.map fun (c, i) => (toString i, str (String.singleton c))
  | _ => []

/-- The member of a mapping under a name of its own. -/
def member? (v : Value) (name : String) : Option Value :=
  if v.isMapping then Members.get? v.members name else none

/-- Whether the value counts as true where a truth value is asked for. -/
def truthy : Value → Bool
  | absent | null => false
  | bool b => b
  | num n => !(n.isZero || n == .nan)
  | str s => s != ""
  | _ => true

/-! ## Texts -/

mutual

/-- The plain text of a value. A list has none of itself in it. -/
def text : Value → String
  | absent => "undefined"
  | null => "null"
  | bool b => if b then "true" else "false"
  | num n => n.text
  | str s => s
  | list items => ",".intercalate (itemTexts items)
  | map _ => "[object Object]"
  | date t => Calendar.longText t
  | bytes data => ",".intercalate (data.map fun b => toString b.toNat)
  | function name => "function " ++ name ++ "() \x7b [native code] \x7d"
  | loop _ v => text v
  | again _ => ""

/-- The texts of the items of a list. Items that are not there have none. -/
def itemTexts : List Value → List String
  | [] => []
  | absent :: rest => "" :: itemTexts rest
  | null :: rest => "" :: itemTexts rest
  | item :: rest => text item :: itemTexts rest

end

end Value

end LayeredSettings
