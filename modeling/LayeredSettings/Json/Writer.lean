import LayeredSettings.Json.Quote
import LayeredSettings.Value.Basic

/-!
# Writing JSON

A value is written without white space. Numbers that are not finite have no form of their own and
are written as null; a member that has no form is left out, and an item that has none is written
as null, so that the others keep their places. A value without an end cannot be written: it is for
whoever writes to look for one before.
-/

namespace LayeredSettings.Json

/-- The written form of a number. -/
def writeNumber : Number → List Char
  | .nan => "null".toList
  | .infinite _ => "null".toList
  | n => n.write

mutual

/-- The written form of a value, if it has one. -/
def write? : Value → Option (List Char)
  | .absent | .function _ | .loop _ _ | .again _ => none
  | .null => some "null".toList
  | .bool b => some (if b then "true" else "false").toList
  | .num n => some (writeNumber n)
  | .str s => some (quote s.toList)
  | .list items => some ('[' :: [','].intercalate (writeItems items) ++ [']'])
  | .map members => some ('\x7b' :: [','].intercalate (writeMembers members) ++ ['\x7d'])
  | .date t => some (quote (Calendar.isoText t).toList)
  | .bytes data =>
    some ('\x7b' :: [','].intercalate
      (data.zipIdx.map fun (byte, i) =>
        quote (toString i).toList ++ ':' :: (toString byte.toNat).toList) ++ ['\x7d'])

/-- The written forms of items. -/
def writeItems : List Value → List (List Char)
  | [] => []
  | item :: rest => (write? item).getD "null".toList :: writeItems rest

/-- The written forms of those members that have one. -/
def writeMembers : List (String × Value) → List (List Char)
  | [] => []
  | (name, part) :: rest =>
    match write? part with
    | some form => (quote name.toList ++ ':' :: form) :: writeMembers rest
    | none => writeMembers rest

end

/-- The written form of a value; one without a form reads `undefined`. -/
def render (v : Value) : String :=
  match write? v with
  | some form => String.ofList form
  | none => "undefined"

end LayeredSettings.Json
