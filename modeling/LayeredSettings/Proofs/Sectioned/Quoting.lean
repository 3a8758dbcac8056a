import LayeredSettings.Proofs.Ini.Collecting
import LayeredSettings.Proofs.Sectioned.Pieces

/-!
# How quoted options are read

An option in the plain form has its name and its value quoted. Its line gives this option this very
value and does nothing else, whatever characters the two are made of, but for the separators of
lines and of paragraphs. Quoting leaves these as they are, and a line with one in its value is read
as nothing.

* `readLines_line_eq_nil`, `readLines_line` — the line of an option, with and without separators;
* `said_quoted` — an option among the pieces of a text.
-/

namespace LayeredSettings.Sectioned

open Ini (Node)

/-- Whether a text has one of the two characters that end a line for the pattern of an option and
that quoting does not escape. -/
def HasSeparator (cs : List Char) : Prop := '\u2028' ∈ cs ∨ '\u2029' ∈ cs

instance (cs : List Char) : Decidable (HasSeparator cs) :=
  inferInstanceAs (Decidable ('\u2028' ∈ cs ∨ '\u2029' ∈ cs))

namespace OptionText

/-- The name of an option. -/
def name (o : OptionText) : String := String.ofList o.key

/-- The value of an option. -/
def text (o : OptionText) : String := String.ofList o.value

/-- What the line of an option says if it is read. -/
def said (o : OptionText) : Ini.Line := .option (.str o.name) (Ini.constant (.str o.text))

/-- Separators stay in a text when it is quoted. -/
theorem mem_quote {c : Char} (hc : c = '\u2028' ∨ c = '\u2029') {cs : List Char} (h : c ∈ cs) :
    c ∈ Json.quote cs := by
  have hescape : Json.escape c = [c] := by
    rcases hc with rfl | rfl
    · decide
    · decide
  have hmem : c ∈ cs.flatMap Json.escape :=
    List.mem_flatMap.mpr ⟨c, h, by rw [hescape]; exact List.mem_singleton_self c⟩
  exact List.mem_cons_of_mem _ (List.mem_append_left _ hmem)

theorem readLines_line_eq (o : OptionText) :
    Ini.readLines o.line = (Ini.Line.read? o.line).toList := by
  rw [Ini.readLines, Ini.splitLines_of_isOneLine o.isOneLine_line]
  cases hread : Ini.Line.read? o.line with
  | none => exact List.filterMap_cons_none hread
  | some said => exact List.filterMap_cons_some hread

/-- The line of an option says its name and its value. -/
theorem readLines_line {o : OptionText} (hkey : ∀ c ∈ o.key, isDelimiter c = false)
    (hvalue : ¬ HasSeparator o.value) : Ini.readLines o.line = [o.said] := by
  have hequals : '=' ∉ o.key := fun hmem => absurd (hkey '=' hmem) (by decide)
  rw [readLines_line_eq, line, Ini.Line.read?_quoted hequals (not_or.mp hvalue)]
  rfl

/-- A line with a separator in its value says nothing. -/
theorem readLines_line_eq_nil {o : OptionText} (hkey : ∀ c ∈ o.key, isDelimiter c = false)
    (hvalue : HasSeparator o.value) : Ini.readLines o.line = [] := by
  have hequals : '=' ∉ o.key := fun hmem => absurd (hkey '=' hmem) (by decide)
  have hterminator : (Json.quote o.value).any Text.isLineTerminator = true := by
    rw [List.any_eq_true]
    rcases hvalue with hvalue | hvalue
    · exact ⟨_, mem_quote (.inl rfl) hvalue, by decide⟩
    · exact ⟨_, mem_quote (.inr rfl) hvalue, by decide⟩
  rw [readLines_line_eq, line, Ini.Line.read?_quote_append hequals, if_pos hterminator]
  rfl

end OptionText

/-- The name of an option among the pieces of a text has no delimiter. -/
theorem isDelimiter_of_mem_pieces {lines : List (List Char)} {o : OptionText}
    (h : .option o ∈ pieces lines) : ∀ c ∈ o.key, isDelimiter c = false := by
  rcases exists_option?_of_mem h with ⟨first, hfirst, -⟩ | ⟨line, -, first, hfirst, hkey⟩
  · cases hfirst
  · rw [← hkey]
    exact isDelimiter_of_mem_key hfirst

/-- An option of the plain form, with any name that is not reserved and not in brackets. Unless its
value has a separator, the text says the option at the place where it stands, which gives the name
the value, and that value is read as the very text. If it has one, the text is read as without the
option. -/
theorem said_quoted {text : List Char} {before after : List Piece} {o : OptionText}
    (h : pieces (Text.lines text) = before ++ .option o :: after) (hname : o.name ≠ "__proto__")
    (hbrackets : ¬ ['[', ']'] <:+ o.key) :
    (¬ HasSeparator o.value →
      said text = before.flatMap Piece.said ++ o.said :: after.flatMap Piece.said ∧
      (∀ b : Ini.Building, b.add o.said = b.give o.name false (.ofText o.text)) ∧
      (Node.ofText o.text).optionText = .ok o.text) ∧
    (HasSeparator o.value →
      said text = before.flatMap Piece.said ++ after.flatMap Piece.said) := by
  have hkey : ∀ c ∈ o.key, isDelimiter c = false :=
    isDelimiter_of_mem_pieces (h ▸ List.mem_append_right before List.mem_cons_self)
  have hsaid : said text =
      before.flatMap Piece.said ++ (Ini.readLines o.line ++ after.flatMap Piece.said) := by
    rw [said_eq_saidBy, saidBy, h, List.flatMap_append, List.flatMap_cons]
    rfl
  constructor
  · intro hvalue
    refine ⟨?_, fun b => ?_, Node.optionText_ofText o.text⟩
    · rw [hsaid, OptionText.readLines_line hkey hvalue, List.singleton_append]
    · refine Ini.Building.add_option (Ini.OptionName.of_unbracketed ?_) rfl hname b _
      rwa [OptionText.name, String.toList_ofList]
  · intro hvalue
    rw [hsaid, OptionText.readLines_line_eq_nil hkey hvalue, List.nil_append]

/-- A text of a section with two options, the second one with a separator in its value. -/
def separatorText : List Char :=
  ['[', 's', ']', '\n', 'a', '=', '1', '\n', ' ', 'b', '\n', 'c', '=', '2', '\n', ' ', 'd',
    '\u2028', 'e']

/-- The first option is read as what it is, and the second one is lost. -/
theorem said_separatorText :
    pieces (Text.lines separatorText) = [.kept ['[', 's', ']']] ++
      .option ⟨['a'], ['1', '\n', 'b']⟩ :: [.option ⟨['c'], ['2', '\n', 'd', '\u2028', 'e']⟩] ∧
    (OptionText.mk ['a'] ['1', '\n', 'b']).name ≠ "__proto__" ∧ ¬ ['[', ']'] <:+ ['a'] ∧
    (OptionText.mk ['c'] ['2', '\n', 'd', '\u2028', 'e']).name ≠ "__proto__" ∧
    ¬ ['[', ']'] <:+ ['c'] ∧
    (∀ b : Ini.Building, b.add (.option (.str "a") (.str "1\nb")) =
      b.give "a" false (.text "1\nb")) ∧
    said separatorText = [.header (.str "s"), .option (.str "a") (.str "1\nb")] := by
  have hpieces : pieces (Text.lines separatorText) = [.kept ['[', 's', ']']] ++
      .option ⟨['a'], ['1', '\n', 'b']⟩ :: [.option ⟨['c'], ['2', '\n', 'd', '\u2028', 'e']⟩] := by
    with_unfolding_all rfl
  have hlast : pieces (Text.lines separatorText) = ([.kept ['[', 's', ']']] ++
      [.option ⟨['a'], ['1', '\n', 'b']⟩]) ++
      .option ⟨['c'], ['2', '\n', 'd', '\u2028', 'e']⟩ :: [] := hpieces
  have hname : (OptionText.mk ['a'] ['1', '\n', 'b']).name ≠ "__proto__" := by decide
  have hname' : (OptionText.mk ['c'] ['2', '\n', 'd', '\u2028', 'e']).name ≠ "__proto__" := by
    decide
  have hbrackets : ¬ ['[', ']'] <:+ ['a'] := by decide
  have hbrackets' : ¬ ['[', ']'] <:+ ['c'] := by decide
  obtain ⟨-, hgives, -⟩ := (said_quoted hpieces hname hbrackets).1 (by decide)
  have hlost := (said_quoted hlast hname' hbrackets').2 (by decide)
  refine ⟨hpieces, hname, hbrackets, hname', hbrackets', hgives, ?_⟩
  rw [hlost]
  with_unfolding_all rfl

end LayeredSettings.Sectioned
