import LayeredSettings.Proofs.Ini.Building
import LayeredSettings.Proofs.Sectioned.Reading

/-!
# The plain form of any text

What the plain form of a text says, whatever the text is: the lines that are left as they are say
what they say alone, and every option says its name and its value. No option is taken for a header.

* `said_eq` — the plain form is read line by line;
* `normalizeFrom_split` — a line that continues nothing begins anew;
* `HasHeader`, `header_mem_said` — where headers can come from;
* `StandsFirst`, `mem_strays_of_standsFirst` — an option that stands before all headers.
-/

namespace LayeredSettings.Ini

theorem splitLines_append_feed (first rest : List Char) :
    splitLines (first ++ '\n' :: rest) = splitLines first ++ splitLines rest := by
  rw [splitLines, List.splitOnP_append_cons first rest (by simp)]
  rfl

/-- Lines joined by line feeds say what each of them says. -/
theorem readLines_intercalate (lines : List (List Char)) :
    readLines (['\n'].intercalate lines) = lines.flatMap readLines := by
  induction lines with
  | nil => rfl
  | cons first rest ih =>
    cases rest with
    | nil => rw [List.intercalate_singleton, List.flatMap_singleton]
    | cons second rest =>
      have hjoin : ['\n'].intercalate (first :: second :: rest) =
          first ++ '\n' :: ['\n'].intercalate (second :: rest) := by
        simp [List.intercalate_cons_cons]
      rw [hjoin, readLines, splitLines_append_feed, List.filterMap_append, List.flatMap_cons, ← ih]
      rfl

/-- What stands before the first end of a line is a line. -/
theorem exists_mem_splitLines {first : List Char} (hfirst : Text.IsOneLine first)
    (rest : List Char) : ∃ more, more <+: rest ∧ first ++ more ∈ splitLines (first ++ rest) := by
  let isEnd (c : Char) : Bool := c == '\n' || c == '\r'
  have hends {cs : List Char} (h : ∀ c ∈ cs, isEnd c = false) : Text.IsOneLine cs :=
    ⟨fun hmem => by simpa [isEnd] using h _ hmem, fun hmem => by simpa [isEnd] using h _ hmem⟩
  have hmore : Text.IsOneLine (rest.takeWhile fun c => !isEnd c) := by
    refine hends fun c hc => ?_
    simpa using List.all_eq_true.mp List.all_takeWhile c hc
  have hline : Text.IsOneLine (first ++ rest.takeWhile fun c => !isEnd c) :=
    Text.isOneLine_append.mpr ⟨hfirst, hmore⟩
  refine ⟨rest.takeWhile fun c => !isEnd c, List.takeWhile_prefix _, ?_⟩
  have hsplit : first ++ rest = first ++ rest.takeWhile (fun c => !isEnd c) ++
      rest.dropWhile fun c => !isEnd c := by
    rw [List.append_assoc, List.takeWhile_append_dropWhile]
  rw [hsplit]
  cases hdrop : rest.dropWhile fun c => !isEnd c with
  | nil => rw [List.append_nil, splitLines_of_isOneLine hline, List.mem_singleton]
  | cons c tail =>
    have hend : isEnd c = true := by
      have hhead := List.head?_dropWhile_not (fun c => !isEnd c) rest
      simpa [hdrop] using hhead
    rw [splitLines, List.splitOnP_append_cons _ _ hend]
    refine List.mem_append_left _ ?_
    rw [← splitLines, splitLines_of_isOneLine hline, List.mem_singleton]

/-- A header is read as such, whatever blanks come after it, ends of lines included. -/
theorem header_mem_readLines {name rest : List Char} (hname : Text.IsOneLine name)
    (hrest : Text.IsPadding rest) (htrim : Text.trim name = name)
    (hchars : ∀ c ∈ name, c ≠ ']' ∧ c ≠ '\\' ∧ c ≠ ';' ∧ c ≠ '#' ∧ c ≠ '"' ∧ c ≠ '\'') :
    Line.header (.str (String.ofList name)) ∈ readLines ('[' :: (name ++ ']' :: rest)) := by
  have hfirst : Text.IsOneLine ('[' :: (name ++ [']'])) := by simp [hname]
  obtain ⟨more, hmore, hmem⟩ := exists_mem_splitLines hfirst rest
  have hread := Line.read?_header Text.isPadding_nil Text.isPadding_nil
    (fun c hc => hrest c (hmore.subset hc)) htrim hchars
  refine List.mem_filterMap.mpr ⟨_, ?_, hread⟩
  simpa using hmem

/-- A line without the form of a header says none. -/
theorem Line.read?_ne_header {line : List Char} (h : headerName? line = none) (name : Value) :
    Line.read? line ≠ some (.header name) := by
  intro hread
  rw [read?, h] at hread
  split at hread
  · cases hread
  · split at hread
    · cases hread
    · dsimp only at hread
      split at hread
      · cases hread
      · split at hread
        · cases hread
        · split at hread
          · cases hread
          · cases hread

end LayeredSettings.Ini

namespace LayeredSettings.Sectioned

/-- What a text says in its plain form. -/
def said (text : List Char) : List Ini.Line := Ini.readLines (normalize text)

/-- The plain form is read line by line. -/
theorem said_eq (text : List Char) : said text = (normalizedLines text).flatMap Ini.readLines :=
  Ini.readLines_intercalate _

/-! ## Lines of the plain form -/

/-- A line that continues nothing begins anew. -/
theorem normalizeFrom_split {line : List Char} (hline : isContinuation line = false)
    (pending : Option OptionText) (before after : List (List Char)) :
    normalizeFrom pending (before ++ line :: after) =
      normalizeFrom pending before ++ normalizeFrom none (line :: after) := by
  fun_induction normalizeFrom pending before with
  | case1 pending =>
    cases pending with
    | none => rfl
    | some o => exact normalizeFrom_some hline o after
  | case2 first rest o hcontinues ih => rw [List.cons_append, normalizeFrom, if_pos hcontinues, ih]
  | case3 first rest o hcontinues ihNext ih =>
    rw [List.cons_append, normalizeFrom, if_neg hcontinues, List.cons_append]
    cases hoption : option? first with
    | none => simp only [ih, List.cons_append]
    | some next => simp only [ihNext next]
  | case4 first rest next hnext ih =>
    rw [List.cons_append, normalizeFrom]
    simp only [hnext, ih]
  | case5 first rest hnext ih =>
    rw [List.cons_append, normalizeFrom_none hnext, ih, List.cons_append]

/-- A line of the plain form was there before, or is that of an option. -/
theorem mem_normalizeFrom {pending : Option OptionText} {lines : List (List Char)}
    {line : List Char} (h : line ∈ normalizeFrom pending lines) :
    line ∈ lines ∨ ∃ o : OptionText, line = o.line := by
  fun_induction normalizeFrom pending lines with
  | case1 pending =>
    obtain ⟨o, -, rfl⟩ := List.mem_map.mp h
    exact .inr ⟨o, rfl⟩
  | case2 first rest o hcontinues ih => exact (ih h).imp_left (List.mem_cons_of_mem first)
  | case3 first rest o hcontinues ihNext ih =>
    rcases List.mem_cons.mp h with rfl | h
    · exact .inr ⟨o, rfl⟩
    · split at h
      · exact (ihNext _ h).imp_left (List.mem_cons_of_mem first)
      · rcases List.mem_cons.mp h with rfl | h
        · exact .inl List.mem_cons_self
        · exact (ih h).imp_left (List.mem_cons_of_mem first)
  | case4 first rest next hnext ih => exact (ih h).imp_left (List.mem_cons_of_mem first)
  | case5 first rest hnext ih =>
    rcases List.mem_cons.mp h with rfl | h
    · exact .inl List.mem_cons_self
    · exact (ih h).imp_left (List.mem_cons_of_mem first)

/-- A line that is no option and continues none is left as it is. -/
theorem mem_normalizedLines {text line : List Char} (hline : line ∈ Text.lines text)
    (hoption : option? line = none) (hcontinues : isContinuation line = false) :
    line ∈ normalizedLines text := by
  obtain ⟨before, after, hlines⟩ := List.append_of_mem hline
  rw [normalizedLines, hlines, normalizeFrom_split hcontinues, normalizeFrom_none hoption]
  exact List.mem_append_right _ List.mem_cons_self

/-! ## Headers -/

/-- Whether a line says a header. -/
def HasHeader (line : List Char) : Prop := ∃ name, Ini.Line.header name ∈ Ini.readLines line

/-- The line of an option says no header. -/
theorem OptionText.not_hasHeader_line (o : OptionText) : ¬ HasHeader o.line := by
  rintro ⟨name, hname⟩
  rw [Ini.readLines, Ini.splitLines_of_isOneLine o.isOneLine_line] at hname
  obtain ⟨line, hline, hread⟩ := List.mem_filterMap.mp hname
  rw [List.mem_singleton.mp hline] at hread
  -- it begins with a quotation mark
  have hquote : o.line = '"' :: (o.key.flatMap Json.escape ++ ['"'] ++ '=' :: Json.quote o.value) :=
    rfl
  have hheader : Ini.headerName? o.line = none := by
    rw [hquote, Ini.headerName?]
    simp
  exact Ini.Line.read?_ne_header hheader name hread

/-- Lines without headers have a plain form without headers. -/
theorem not_hasHeader_of_mem {pending : Option OptionText} {lines : List (List Char)}
    (h : ∀ line ∈ lines, ¬ HasHeader line) :
    ∀ line ∈ normalizeFrom pending lines, ¬ HasHeader line := by
  intro line hline
  rcases mem_normalizeFrom hline with hline | ⟨o, rfl⟩
  · exact h line hline
  · exact o.not_hasHeader_line

/-- An unindented header is read as such, whatever blanks come after it. -/
theorem header_mem_said {text rest : List Char} {name : String} (hrest : Text.IsPadding rest)
    (hname : Text.IsOneLine name.toList) (htrim : Text.trim name.toList = name.toList)
    (hchars : ∀ c ∈ name.toList, c ≠ ']' ∧ c ≠ '\\' ∧ c ≠ ';' ∧ c ≠ '#' ∧ c ≠ '"' ∧ c ≠ '\'')
    (hline : '[' :: (name.toList ++ ']' :: rest) ∈ Text.lines text) :
    Ini.Line.header (.str name) ∈ said text := by
  have hheader : IsHeader name ('[' :: (name.toList ++ ']' :: rest)) :=
    ⟨[], [], rest, Text.isPadding_nil, Text.isPadding_nil, hrest, by simp⟩
  rw [said_eq, List.mem_flatMap]
  refine ⟨_, mem_normalizedLines hline hheader.option?_eq_none hheader.isContinuation_eq_false, ?_⟩
  have hread := Ini.header_mem_readLines hname hrest htrim hchars
  rwa [String.ofList_toList] at hread

/-! ## Options before all headers -/

/-- An unindented line that gives an option a value. -/
structure SaysOption (key value line : List Char) : Prop where
  key_trimmed : Text.trim key = key
  key_ne_nil : key ≠ []
  key_start : ∀ c ∈ key.head?, c ≠ '#' ∧ c ≠ ';' ∧ c ≠ '['
  key_chars : ∀ c ∈ key, isDelimiter c = false
  value_chars : ∀ c ∈ value, Text.isLineTerminator c = false
  form : ∃ before delimiter after, Text.IsPadding before ∧ isDelimiter delimiter = true ∧
    Text.trim after = value ∧ line = key ++ before ++ delimiter :: after

/-- A line that continues a value. The two separators would keep the value from being read. -/
def Continues (line : List Char) : Prop :=
  isContinuation line = true ∧ '\u2028' ∉ line ∧ '\u2029' ∉ line

/-- An option that stands in a text before all headers, with the value that its own line begins and
the lines below it continue. -/
def StandsFirst (text key value : List Char) : Prop :=
  ∃ before line first more after, Text.lines text = before ++ line :: (more ++ after) ∧
    (∀ earlier ∈ before, ¬ HasHeader earlier) ∧ SaysOption key first line ∧
    (∀ piece ∈ more, Continues piece) ∧ (∀ next ∈ after.head?, isContinuation next = false) ∧
    value = ['\n'].intercalate (first :: more.map Text.trim)

theorem SaysOption.option?_eq {key value line : List Char} (h : SaysOption key value line) :
    option? line = some ⟨key, value⟩ := by
  obtain ⟨before, delimiter, after, hbefore, hdelimiter, rfl, rfl⟩ := h.form
  exact option?_append h.key_trimmed h.key_ne_nil h.key_start h.key_chars hbefore hdelimiter
    h.value_chars

theorem SaysOption.isContinuation_eq_false {key value line : List Char}
    (h : SaysOption key value line) : isContinuation line = false := by
  obtain ⟨before, delimiter, after, -, -, -, rfl⟩ := h.form
  obtain ⟨c, rest, hkey⟩ := List.exists_cons_of_ne_nil h.key_ne_nil
  have hc : Text.isBlank c = false := by
    apply Text.isBlank_of_trim_eq_cons
    rw [h.key_trimmed, hkey]
  simp [isContinuation, isIndented, hkey, hc]

/-- Lines that continue a value are added to it, and the next line closes the option. -/
theorem normalizeFrom_continues {more after : List (List Char)}
    (hmore : ∀ piece ∈ more, isContinuation piece = true)
    (hafter : ∀ next ∈ after.head?, isContinuation next = false) (o : OptionText) :
    normalizeFrom (some o) (more ++ after) =
      ((more.map Text.trim).foldl OptionText.extend o).line :: normalizeFrom none after := by
  induction more generalizing o with
  | nil =>
    cases after with
    | nil => rfl
    | cons next rest => exact normalizeFrom_some (hafter next rfl) o rest
  | cons piece rest ih =>
    rw [List.cons_append, normalizeFrom, if_pos (hmore piece List.mem_cons_self),
      ih fun other hother => hmore other (List.mem_cons_of_mem piece hother)]
    rfl

/-- An option before all headers is read as one. -/
theorem mem_strays_of_standsFirst {text key value : List Char} (h : StandsFirst text key value) :
    Ini.Line.option (.str (String.ofList key)) (Ini.constant (.str (String.ofList value))) ∈
      Ini.strays (said text) := by
  obtain ⟨before, line, first, more, after, hlines, hbefore, hline, hmore, hafter, rfl⟩ := h
  have hform : normalizedLines text = normalizeFrom none before ++
      OptionText.line ⟨key, ['\n'].intercalate (first :: more.map Text.trim)⟩ ::
        normalizeFrom none after := by
    rw [normalizedLines, hlines, normalizeFrom_split hline.isContinuation_eq_false, normalizeFrom]
    simp only [hline.option?_eq]
    rw [normalizeFrom_continues (fun piece hpiece => (hmore piece hpiece).1) hafter, foldl_extend]
  have hequals : '=' ∉ key := by
    intro hmem
    have hdelimiter := hline.key_chars '=' hmem
    simp [isDelimiter] at hdelimiter
  -- the value has no separators, so that its line can be read
  have hfree (c : Char) (hfeed : c ≠ '\n') (hterminator : Text.isLineTerminator c = true)
      (hmoreFree : ∀ piece ∈ more, c ∉ piece) :
      c ∉ ['\n'].intercalate (first :: more.map Text.trim) := by
    intro hmem
    obtain ⟨piece, hpiece, hc⟩ :=
      Entry.mem_value (e := ⟨key, first, more.map Text.trim⟩) hmem hfeed
    rcases List.mem_cons.mp hpiece with rfl | hpiece
    · rw [hline.value_chars c hc] at hterminator
      cases hterminator
    · obtain ⟨raw, hraw, rfl⟩ := List.mem_map.mp hpiece
      exact hmoreFree raw hraw (Text.mem_of_mem_trim hc)
  have hread := Ini.Line.read?_quoted hequals
    ⟨hfree '\u2028' (by decide) (by decide) fun piece hpiece => (hmore piece hpiece).2.1,
      hfree '\u2029' (by decide) (by decide) fun piece hpiece => (hmore piece hpiece).2.2⟩
  have hoption : Ini.readLines
      (OptionText.line ⟨key, ['\n'].intercalate (first :: more.map Text.trim)⟩) =
      [.option (.str (String.ofList key)) (Ini.constant
        (.str (String.ofList (['\n'].intercalate (first :: more.map Text.trim)))))] := by
    rw [Ini.readLines, Ini.splitLines_of_isOneLine (OptionText.isOneLine_line _)]
    exact List.filterMap_cons_some hread
  have hoptions : ∀ said ∈ (normalizeFrom none before).flatMap Ini.readLines,
      said.isOption = true := by
    intro said hsaid
    obtain ⟨earlier, hearlier, hmem⟩ := List.mem_flatMap.mp hsaid
    cases said with
    | header name => exact absurd ⟨name, hmem⟩ (not_hasHeader_of_mem hbefore earlier hearlier)
    | option key v => rfl
  rw [said_eq, hform, List.flatMap_append, List.flatMap_cons, hoption, Ini.strays,
    List.takeWhile_append_of_pos hoptions, List.singleton_append, List.takeWhile_cons_of_pos rfl]
  exact List.mem_append_right _ List.mem_cons_self

end LayeredSettings.Sectioned
