import LayeredSettings.Text.Blank

/-!
# Levels

A logger writes a record if the rank of its level is at least the rank of the logger's own level.
The ranks are kept in a table of constants, and such a table also has the members that every table
has. A level named like one of them ranks by the text of that member, which compares with other
texts and with no number.
-/

namespace LayeredSettings.Log

/-- What a level is compared by. -/
inductive Rank where
  | number (n : Nat)
  | text (s : String)
deriving DecidableEq, Repr

/-- The levels that have a rank of their own. -/
def levels : List (String × Nat) :=
  [("trace", 0), ("debug", 10), ("info", 20), ("warn", 30), ("error", 40), ("fatal", 50)]

/-- The rank of a level that is not known: that of `info`. -/
def defaultRank : Nat := 20

/-- The members that every table has, and their texts. -/
def commonMembers : List (String × String) :=
  let operation (name : String) : String := "function " ++ name ++ "() \x7b [native code] \x7d"
  [("constructor", operation "Object"), ("__proto__", "[object Object]")] ++
    ["__defineGetter__", "__defineSetter__", "hasOwnProperty", "__lookupGetter__",
      "__lookupSetter__", "isPrototypeOf", "propertyIsEnumerable", "toString", "valueOf",
      "toLocaleString"].map fun name => (name, operation name)

/-- Whether a level is found in the table, be it as a common member. -/
def isListed (level : String) : Bool :=
  (levels.lookup level).isSome || (commonMembers.lookup level).isSome

/-- The rank of a level. -/
def rank (level : String) : Rank :=
  match levels.lookup level, commonMembers.lookup level with
  | some n, _ => .number n
  | none, some s => .text s
  | none, none => .number defaultRank

/-- Whether the first rank is at least the second. A number and a text compare as neither. -/
def Rank.atLeast : Rank → Rank → Bool
  | .number n, .number m => m ≤ n
  | .text s, .text t => decide (t ≤ s)
  | _, _ => false

end LayeredSettings.Log
