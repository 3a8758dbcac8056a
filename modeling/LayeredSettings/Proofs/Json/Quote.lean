import LayeredSettings.Json.Quote
import LayeredSettings.Json.Reader

/-!
# Reading quoted text back

Quoting loses nothing: a quoted text is read as the text itself. What the quoting escapes does not
stand in the quoted text, so that it never ends a line.

* `readText_escape` — one character is read back from its written form, whatever follows;
* `read?_quote` — a quoted text is JSON, and reads as the text;
* `mem_of_mem_quote` — what stands in a quoted text, escapes apart, stands in the text.
-/

namespace LayeredSettings.Json

/-! ## Units -/

/-- No character is half of a pair. -/
theorem isHighHalf_toNat (c : Char) : Text.isHighHalf c.toNat = false := by
  have hvalid := c.valid
  simp only [UInt32.isValidChar, Nat.isValidChar, Char.toNat_val] at hvalid
  simp only [Text.isHighHalf, Bool.and_eq_false_iff, decide_eq_false_iff_not]
  omega

theorem isLowHalf_toNat (c : Char) : Text.isLowHalf c.toNat = false := by
  have hvalid := c.valid
  simp only [UInt32.isValidChar, Nat.isValidChar, Char.toNat_val] at hvalid
  simp only [Text.isLowHalf, Bool.and_eq_false_iff, decide_eq_false_iff_not]
  omega

theorem charOfUnit_toNat (c : Char) : Text.charOfUnit c.toNat = c := by
  simp [Text.charOfUnit, isHighHalf_toNat, isLowHalf_toNat]

/-- The units of a text join to the text. -/
theorem ofUnits_map_toNat (cs : List Char) : Text.ofUnits (cs.map Char.toNat) = cs := by
  induction cs with
  | nil => rfl
  | cons c rest ih =>
    cases rest with
    | nil => simp [Text.ofUnits, charOfUnit_toNat]
    | cons d rest =>
      rw [List.map_cons] at ih
      simp only [List.map_cons, Text.ofUnits, isHighHalf_toNat, Bool.false_and,
        Bool.false_eq_true, if_false, charOfUnit_toNat, ih]

/-! ## Characters -/

theorem hexUnit?_hexDigit :
    ∀ n < 0x20, hexUnit? '0' '0' (hexDigit (n / 16)) (hexDigit (n % 16)) = some n := by
  decide

/-- An escape of one letter is read as the unit of the letter. -/
theorem readText_letter {letter : Char} (hletter : letter ≠ 'u') {unit : Nat}
    (hunit : escaped? letter = some unit) (rest : List Char) :
    readText ('\\' :: letter :: rest) =
      (readText rest).map fun read => (unit :: read.1, read.2) := by
  rw [readText]
  · rw [hunit]
    cases readText rest <;> rfl
  · intro a b c d tail h
    exact absurd h hletter

/-- A character that needs no escape is read as itself. -/
theorem readText_plain {c : Char} (hquote : c ≠ '"') (hback : c ≠ '\\') (hlow : ¬ c.toNat < 0x20)
    (rest : List Char) :
    readText (c :: rest) = (readText rest).map fun read => (c.toNat :: read.1, read.2) := by
  rw [readText]
  · simp only [hlow, decide_false, beq_eq_false_iff_ne.mpr hback, Bool.or_self,
      Bool.false_eq_true, if_false]
    cases readText rest <;> rfl
  · exact hquote
  · intro _ _ _ _ _ h
    exact absurd h hback
  · intro _ _ h
    exact absurd h hback

/-- A character is read back from its written form, whatever follows. -/
theorem readText_escape (c : Char) (rest : List Char) :
    readText (escape c ++ rest) = (readText rest).map fun read => (c.toNat :: read.1, read.2) := by
  unfold escape
  split
  · rename_i h; subst h
    exact readText_letter (by decide) rfl rest
  split
  · rename_i h; subst h
    exact readText_letter (by decide) rfl rest
  split
  · rename_i h; subst h
    exact readText_letter (by decide) rfl rest
  split
  · rename_i h; subst h
    exact readText_letter (by decide) rfl rest
  split
  · rename_i h; subst h
    exact readText_letter (by decide) rfl rest
  split
  · rename_i h; subst h
    exact readText_letter (by decide) rfl rest
  split
  · rename_i h; subst h
    exact readText_letter (by decide) rfl rest
  split
  · -- any other control character is written by its number
    rename_i h
    simp only [List.cons_append, List.nil_append]
    rw [readText, hexUnit?_hexDigit c.toNat h]
    cases readText rest <;> rfl
  · rename_i hquote hback _ _ _ _ _ hlow
    exact readText_plain hquote hback hlow rest

/-- Quoted text is read up to its closing quotation mark. -/
theorem readText_flatMap_escape (cs rest : List Char) :
    readText (cs.flatMap escape ++ '"' :: rest) = some (cs.map Char.toNat, rest) := by
  induction cs with
  | nil => rw [List.flatMap_nil, List.nil_append, readText, List.map_nil]
  | cons c cs ih =>
    rw [List.flatMap_cons, List.append_assoc, readText_escape, ih]
    rfl

theorem readString_quote (cs rest : List Char) :
    readString (cs.flatMap escape ++ '"' :: rest) = some (String.ofList cs, rest) := by
  rw [readString, readText_flatMap_escape, Option.map_some]
  simp only [ofUnits_map_toNat]

/-- A quoted text is JSON, and reads as the text. -/
theorem read?_quote (cs : List Char) : read? (quote cs) = some (.str (String.ofList cs)) := by
  have hquote : quote cs = '"' :: (cs.flatMap escape ++ '"' :: []) := rfl
  have hskip : skipSpace (quote cs) = quote cs := by
    rw [hquote, skipSpace, List.dropWhile_cons_of_neg (by decide)]
  have hvalue : readValue (2 * (quote cs).length + 2) (quote cs) =
      some (.str (String.ofList cs), []) := by
    rw [readValue, hskip, hquote]
    simp only [readString_quote, Option.map_some]
  rw [read?, hvalue]
  rfl

/-! ## What a quoted text is free of -/

/-- Whether a character can be part of an escape: the backslash, a quotation mark, a letter or a
digit. -/
def isEscapeSign (x : Char) : Bool := x == '\\' || x == '"' || x.isAlphanum

theorem isEscapeSign_hexDigit : ∀ n < 0x10, isEscapeSign (hexDigit n) = true := by decide

/-- A written form holds the character itself, unless it is a control character, or the signs of an
escape. -/
theorem mem_escape {x c : Char} (h : x ∈ escape c) :
    (x = c ∧ ¬ c.toNat < 0x20) ∨ isEscapeSign x = true := by
  have hsigns (signs : List Char) (hall : signs.all isEscapeSign = true) (hx : x ∈ signs) :
      isEscapeSign x = true := List.all_eq_true.mp hall x hx
  unfold escape at h
  split at h
  · exact .inr (hsigns _ (by decide) h)
  split at h
  · exact .inr (hsigns _ (by decide) h)
  split at h
  · exact .inr (hsigns _ (by decide) h)
  split at h
  · exact .inr (hsigns _ (by decide) h)
  split at h
  · exact .inr (hsigns _ (by decide) h)
  split at h
  · exact .inr (hsigns _ (by decide) h)
  split at h
  · exact .inr (hsigns _ (by decide) h)
  split at h
  · refine .inr (hsigns _ ?_ h)
    have hfirst := isEscapeSign_hexDigit (c.toNat / 16) (by omega)
    have hsecond := isEscapeSign_hexDigit (c.toNat % 16) (by omega)
    have hsigns : (['\\', 'u', '0', '0'] : List Char).all isEscapeSign = true := by decide
    simp only [List.all_cons, List.all_nil, Bool.and_true, Bool.and_eq_true] at hsigns ⊢
    exact ⟨hsigns.1, hsigns.2.1, hsigns.2.2.1, hsigns.2.2.2, hfirst, hsecond⟩
  · rename_i hlow
    exact .inl ⟨List.mem_singleton.mp h, hlow⟩

/-- A character that is part of no escape stands in a quoted text only if it stands in the text
itself and is no control character. -/
theorem mem_of_mem_quote {x : Char} {cs : List Char} (hsign : isEscapeSign x = false)
    (h : x ∈ quote cs) : x ∈ cs ∧ ¬ x.toNat < 0x20 := by
  have hquote : x ≠ '"' := by
    rintro rfl
    cases hsign
  have hx : x ∈ cs.flatMap escape := by
    simpa [quote, hquote] using h
  obtain ⟨c, hc, hmem⟩ := List.mem_flatMap.mp hx
  rcases mem_escape hmem with ⟨rfl, hlow⟩ | h
  · exact ⟨hc, hlow⟩
  · rw [hsign] at h
    cases h

end LayeredSettings.Json
