import LayeredSettings.Text.CaseTable

/-!
# Letter case

Full Unicode case mapping without a locale. Two letters go beyond a table look-up downwards: the
dotted capital I becomes two characters, and a capital sigma becomes a final one at the end of a
word. Upwards, a letter may expand to up to three characters.
-/

namespace LayeredSettings.Text

private def inRanges (ranges : List (Nat × Nat)) (c : Char) : Bool :=
  ranges.any fun (first, last) => first ≤ c.toNat && c.toNat ≤ last

/-- The case partner in a table of ranges. -/
def partner? (ranges : List CaseRange) (c : Char) : Option Char :=
  (ranges.find? (·.covers c.toNat)).map fun r => Char.ofNat ((c.toNat : Int) + r.shift).toNat

/-- Letters with case that a capital sigma counts as part of its word. -/
def isCased (c : Char) : Bool := inRanges casedRanges c

/-- Characters that a capital sigma looks past for the letters of its word. -/
def isCaseIgnorable (c : Char) : Bool := inRanges caseIgnorableRanges c

/-- The lower case form of a character outside any context. -/
def lowerChar (c : Char) : List Char :=
  if c = 'İ' then ['i', '\u0307'] else [(partner? lowerRanges c).getD c]

/-- The upper case form of a character. -/
def upperChar (c : Char) : List Char :=
  match upperExpansions.lookup c.toNat with
  | some codes => codes.map Char.ofNat
  | none => [(partner? upperRanges c).getD c]

/-- Whether the nearest character that is not ignorable has case. -/
def meetsLetter (cs : List Char) : Bool :=
  match cs.dropWhile isCaseIgnorable with
  | [] => false
  | c :: _ => isCased c

/-- Lower cases a text of which `before`, backwards, has been read: a capital sigma that follows a
letter and precedes none is final. -/
def lowerFrom (before : List Char) : List Char → List Char
  | [] => []
  | c :: rest =>
    (if c = 'Σ' then [if meetsLetter before && !meetsLetter rest then 'ς' else 'σ']
      else lowerChar c) ++ lowerFrom (c :: before) rest

/-- The lower case form of a text. -/
def lower (cs : List Char) : List Char := lowerFrom [] cs

/-- The upper case form of a text. -/
def upper (cs : List Char) : List Char := cs.flatMap upperChar

/-- The lower case form of a string. -/
def lowerCase (s : String) : String := String.ofList (lower s.toList)

/-- The upper case form of a string. -/
def upperCase (s : String) : String := String.ofList (upper s.toList)

@[simp] theorem toList_lowerCase (s : String) : (lowerCase s).toList = lower s.toList := by
  simp [lowerCase]

@[simp] theorem toList_upperCase (s : String) : (upperCase s).toList = upper s.toList := by
  simp [upperCase]

end LayeredSettings.Text
