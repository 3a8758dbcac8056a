import LayeredSettings.Json.Writer

/-!
# Plain values

What is left of a value once it has been written as JSON and read back: no absent members, no
numbers beside the finite ones, one zero, and texts and maps in place of points in time and binary
data.
-/

namespace LayeredSettings.Json

/-- Whether a value has a written form. -/
def isWritten : Value → Bool
  | .absent | .function _ | .loop _ _ | .again _ => false
  | _ => true

/-- A number as it reads back. -/
def plainNumber (n : Number) : Value :=
  match n with
  | .nan => .null
  | .infinite _ => .null
  | n => .num (if n.isZero then Number.zero false else n)

mutual

/-- A value as it reads back. One without a written form reads back as null. -/
def plain : Value → Value
  | .absent => .null
  | .function _ => .null
  | .num n => plainNumber n
  | .list items => .list (plainItems items)
  | .map members => .map (plainMembers members)
  | .date t => .str (Calendar.isoText t)
  | .bytes data => .map (Value.bytes data).members
  | v => v

/-- Items as they read back. -/
def plainItems : List Value → List Value
  | [] => []
  | item :: rest => plain item :: plainItems rest

/-- Members as they read back. -/
def plainMembers : List (String × Value) → List (String × Value)
  | [] => []
  | (name, part) :: rest =>
    if isWritten part then (name, plain part) :: plainMembers rest else plainMembers rest

end

end LayeredSettings.Json
