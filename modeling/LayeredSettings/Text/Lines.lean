import LayeredSettings.Text.Blank

/-!
# Lines

A line ends at a line feed, together with one carriage return right before it. The last line has
no end of its own, so a carriage return that closes the text stays in it.
-/

namespace LayeredSettings.Text

/-- Drops one carriage return from the end. -/
def dropCarriage (line : List Char) : List Char :=
  if line.getLast? = some '\r' then line.dropLast else line

/-- The lines of a text; never empty. -/
def lines (cs : List Char) : List (List Char) :=
  let pieces := cs.splitOn '\n'
  pieces.dropLast.map dropCarriage ++ pieces.drop (pieces.length - 1)

/-- The pieces of a string between the separators; one more than there are separators. -/
def splitAt (separator : Char) (s : String) : List String :=
  (s.toList.splitOn separator).map String.ofList

/-- The pieces joined by a separator, undoing `splitAt`. -/
def joinWith (separator : Char) (pieces : List String) : String :=
  String.ofList ([separator].intercalate (pieces.map String.toList))

theorem joinWith_splitAt (separator : Char) (s : String) :
    joinWith separator (splitAt separator s) = s := by
  simp [joinWith, splitAt, Function.comp_def, List.intercalate_splitOn]

end LayeredSettings.Text
