import LayeredSettings.Proofs.Sectioned.Layout

/-!
# Reading laid out sections

Whatever the layout of a file, the plain form that it is brought into says what its statements say:
one header a section, and one quoted option for all the lines of a value.

* `normalizeFrom_of_laysOut` — the lines of the plain form, read one by one, are the statements;
* `readLines_of_isFileOf` — a text of blocks is read as their statements.
-/

namespace LayeredSettings.Sectioned

/-- A statement as it is read. -/
def Statement.line : Statement → Ini.Line
  | .header name => .header (.str name)
  | .entry e => .option (.str e.name) (Ini.constant (.str e.text))

/-! ## Idle lines -/

theorem IsIdle.option?_eq_none {line : List Char} (h : IsIdle line) : option? line = none := by
  unfold option?
  rcases h with h | h
  · simp [Text.trim_eq_nil_iff.mpr h]
  · simp [h]

theorem IsIdle.isContinuation_eq_false {line : List Char} (h : IsIdle line) :
    isContinuation line = false := by
  unfold isContinuation
  rcases h with h | h
  · simp [Text.trim_eq_nil_iff.mpr h]
  · simp [h]

theorem IsIdle.read?_eq_none {line : List Char} (h : IsIdle line) : Ini.Line.read? line = none := by
  apply Ini.Line.read?_of_trimStart
  rcases h with h | h
  · exact .inl (Text.trimStart_of_isPadding h)
  · rw [isComment, Text.head?_trim] at h
    cases hstart : Text.trimStart line with
    | nil => exact .inl rfl
    | cons c rest =>
      rw [hstart] at h
      refine .inr ⟨c, rest, rfl, ?_⟩
      simpa [or_comm] using h

/-! ## Headers -/

theorem IsHeader.trimStart_eq {name : String} {line : List Char} (h : IsHeader name line) :
    ∃ rest, line = '[' :: rest ∧ Text.trim line = '[' :: Text.trimEnd rest := by
  obtain ⟨before, after, rest, -, -, -, rfl⟩ := h
  refine ⟨_, rfl, ?_⟩
  rw [Text.trim, Text.trimStart, List.dropWhile_cons_of_neg (by decide),
    Text.trimEnd_cons (by decide)]

theorem IsHeader.option?_eq_none {name : String} {line : List Char} (h : IsHeader name line) :
    option? line = none := by
  obtain ⟨rest, -, htrim⟩ := h.trimStart_eq
  simp [option?, htrim]

theorem IsHeader.isContinuation_eq_false {name : String} {line : List Char}
    (h : IsHeader name line) : isContinuation line = false := by
  obtain ⟨rest, rfl, -⟩ := h.trimStart_eq
  have hindented : isIndented ('[' :: rest) = false := by
    simp [isIndented, Text.isBlank]
  simp [isContinuation, hindented]

theorem IsHeader.read?_eq {b : Block} {line : List Char} (hplain : b.Plain)
    (h : IsHeader b.name line) : Ini.Line.read? line = some (.header (.str b.name)) := by
  obtain ⟨before, after, rest, hbefore, hafter, hrest, rfl⟩ := h
  rw [Ini.Line.read?_header hbefore hafter hrest hplain.name_trimmed hplain.name_chars,
    String.ofList_toList]

/-! ## Options -/

/-- The characters of a value that are not line feeds are those of its lines. -/
theorem Entry.mem_value {e : Entry} {c : Char} (hc : c ∈ e.value) (hfeed : c ≠ '\n') :
    ∃ line ∈ e.first :: e.more, c ∈ line := by
  unfold value at hc
  generalize e.first :: e.more = lines at hc
  induction lines with
  | nil => simp at hc
  | cons first rest ih =>
    cases rest with
    | nil =>
      rw [List.intercalate_singleton] at hc
      exact ⟨first, List.mem_cons_self, hc⟩
    | cons second rest =>
      rw [List.intercalate_cons_cons] at hc
      simp only [List.mem_append, List.mem_singleton, hfeed, or_false] at hc
      rcases hc with hc | hc
      · exact ⟨first, List.mem_cons_self, hc⟩
      · obtain ⟨line, hline, hmem⟩ := ih hc
        exact ⟨line, List.mem_cons_of_mem first hline, hmem⟩

/-- The plain form of an option, read. -/
theorem Entry.read?_line {e : Entry} (hplain : e.Plain) :
    Ini.Line.read? (OptionText.line ⟨e.key, e.value⟩) = some (Statement.entry e).line := by
  have hkey : '=' ∉ e.key := by
    intro h
    have hdelimiter := hplain.key_chars '=' h
    simp [isDelimiter] at hdelimiter
  have hvalue (c : Char) (hfeed : c ≠ '\n') (hterminator : Text.isLineTerminator c = true) :
      c ∉ e.value := by
    intro h
    obtain ⟨line, hline, hmem⟩ := mem_value h hfeed
    rw [hplain.lines_chars line hline c hmem] at hterminator
    cases hterminator
  exact Ini.Line.read?_quoted hkey
    ⟨hvalue _ (by decide) (by decide), hvalue _ (by decide) (by decide)⟩

/-- The name of an option begins with a character that is not blank. -/
theorem Entry.exists_key_eq {e : Entry} (hplain : e.Plain) :
    ∃ c key, e.key = c :: key ∧ Text.isBlank c = false := by
  obtain ⟨c, key, hkey⟩ := List.exists_cons_of_ne_nil hplain.key_ne_nil
  refine ⟨c, key, hkey, ?_⟩
  apply Text.isBlank_of_trim_eq_cons
  rw [hplain.key_trimmed, hkey]

theorem isBlank_of_isDelimiter {c : Char} (h : isDelimiter c = true) : Text.isBlank c = false := by
  simp only [isDelimiter, Bool.or_eq_true, beq_iff_eq] at h
  rcases h with rfl | rfl
  · decide
  · decide

/-- A line is split at its first delimiter. -/
theorem splitOption?_append {before : List Char} (hbefore : ∀ c ∈ before, isDelimiter c = false)
    {delimiter : Char} (hdelimiter : isDelimiter delimiter = true) {after : List Char}
    (hafter : (Text.trimStart after).any Text.isLineTerminator = false) :
    splitOption? (before ++ delimiter :: after) =
      some ⟨Text.trimEnd before, Text.trimStart after⟩ := by
  have hstops : ∀ c ∈ before, (!isDelimiter c) = true := by
    intro c hc
    rw [hbefore c hc]
    rfl
  have hstop : (!isDelimiter delimiter) = false := by rw [hdelimiter, Bool.not_true]
  have htake := Text.takeWhile_append_cons hstops hstop after
  have hdrop := Text.dropWhile_append_cons hstops hstop after
  rw [splitOption?, hdrop, htake]
  simp only [hafter]
  rfl

/-- The first line of an option, trimmed, is its name up to the delimiter and its value from there
on. -/
theorem option?_append {key before after : List Char} {delimiter : Char}
    (htrimmed : Text.trim key = key) (hne : key ≠ [])
    (hstart : ∀ c ∈ key.head?, c ≠ '#' ∧ c ≠ ';' ∧ c ≠ '[')
    (hchars : ∀ c ∈ key, isDelimiter c = false) (hbefore : Text.IsPadding before)
    (hdelimiter : isDelimiter delimiter = true)
    (hafter : ∀ c ∈ Text.trim after, Text.isLineTerminator c = false) :
    option? (key ++ before ++ delimiter :: after) = some ⟨key, Text.trim after⟩ := by
  obtain ⟨c, rest, hkey⟩ := List.exists_cons_of_ne_nil hne
  have hc : Text.isBlank c = false := by
    apply Text.isBlank_of_trim_eq_cons
    rw [htrimmed, hkey]
  have htrim : Text.trim (key ++ before ++ delimiter :: after) =
      key ++ before ++ delimiter :: Text.trimEnd after := by
    have hfirst : Text.trimStart (key ++ before ++ delimiter :: after) =
        key ++ before ++ delimiter :: after := by
      rw [hkey, List.cons_append, List.cons_append, Text.trimStart,
        List.dropWhile_cons_of_neg (by simp [hc])]
    rw [Text.trim, hfirst, Text.trimEnd_append_cons _ (isBlank_of_isDelimiter hdelimiter)]
  -- the delimiter of the line is the first one: neither name nor blanks hold any
  have hstops : ∀ d ∈ key ++ before, isDelimiter d = false := by
    intro d hd
    rcases List.mem_append.mp hd with hd | hd
    · exact hchars d hd
    · rw [Bool.eq_false_iff]
      intro hdelimiter
      have hblank := isBlank_of_isDelimiter hdelimiter
      rw [hbefore d hd] at hblank
      cases hblank
  have honeLine : (Text.trim after).any Text.isLineTerminator = false := by
    rw [List.any_eq_false]
    intro d hd
    simp [hafter d hd]
  have hname : Text.trimEnd (key ++ before) = key := by
    rw [Text.trimEnd_append hbefore, Text.trimEnd_of_trim htrimmed]
  have hsplit := splitOption?_append hstops hdelimiter (by rwa [Text.trimStart_trimEnd])
  rw [Text.trimStart_trimEnd, hname] at hsplit
  obtain ⟨hhash, hsemicolon, hbracket⟩ := hstart c (by rw [hkey]; rfl)
  have hhead : (key ++ before ++ delimiter :: Text.trimEnd after).head? = some c := by
    rw [hkey]
    rfl
  have hfull : key ++ before ++ delimiter :: Text.trimEnd after ≠ [] := by simp
  simp only [option?, htrim, isComment, hhead, hsplit, List.isEmpty_eq_false_iff.mpr hfull]
  simp [hhash, hsemicolon, hbracket]

/-- The first line of an option that is laid out is read as its name and the first line of its
value. -/
theorem BeginsEntry.option?_eq {e : Entry} {line : List Char} (hplain : e.Plain)
    (h : BeginsEntry e line) : option? line = some ⟨e.key, e.first⟩ := by
  obtain ⟨before, delimiter, after, rest, hbefore, hdelimiter, hafter, hrest, rfl⟩ := h
  have hfirst : Text.trim (after ++ e.first ++ rest) = e.first :=
    Text.trim_pad hafter hrest (hplain.lines_trimmed e.first List.mem_cons_self)
  have hchars : ∀ c ∈ Text.trim (after ++ e.first ++ rest), Text.isLineTerminator c = false := by
    rw [hfirst]
    exact hplain.lines_chars e.first List.mem_cons_self
  rw [option?_append hplain.key_trimmed hplain.key_ne_nil hplain.key_start hplain.key_chars hbefore
    hdelimiter hchars, hfirst]

theorem BeginsEntry.isContinuation_eq_false {e : Entry} {line : List Char} (hplain : e.Plain)
    (h : BeginsEntry e line) : isContinuation line = false := by
  obtain ⟨before, delimiter, after, rest, -, -, -, -, rfl⟩ := h
  obtain ⟨c, key, hkey, hc⟩ := Entry.exists_key_eq hplain
  simp [isContinuation, isIndented, hkey, hc]

theorem ContinuesEntry.trim_eq {piece line : List Char} (htrim : Text.trim piece = piece)
    (h : ContinuesEntry piece line) : Text.trim line = piece := by
  obtain ⟨indent, rest, -, hindent, hrest, rfl⟩ := h
  exact Text.trim_pad hindent hrest htrim

theorem ContinuesEntry.isContinuation_eq_true {piece line : List Char}
    (htrim : Text.trim piece = piece) (hpiece : piece ≠ [] ∧ isComment piece = false)
    (h : ContinuesEntry piece line) : isContinuation line = true := by
  have hline := h.trim_eq htrim
  have hindented : isIndented line = true := by
    obtain ⟨indent, rest, hne, hindent, -, rfl⟩ := h
    obtain ⟨c, blanks, rfl⟩ := List.exists_cons_of_ne_nil hne
    have hc : Text.isBlank c = true := hindent c List.mem_cons_self
    simp [isIndented, hc]
  simp only [isContinuation, hline, hindented, hpiece.2, List.isEmpty_eq_false_iff.mpr hpiece.1]
  rfl

/-! ## The plain form -/

/-- What a statement has to be like to be read as it is meant. -/
def Statement.Plain : Statement → Prop
  | .header name => ∃ b : Block, b.Plain ∧ b.name = name
  | .entry e => e.Plain

/-- A line that does not continue the pending option closes it. -/
theorem normalizeFrom_some {line : List Char} (h : isContinuation line = false) (o : OptionText)
    (rest : List (List Char)) :
    normalizeFrom (some o) (line :: rest) = o.line :: normalizeFrom none (line :: rest) := by
  simp only [normalizeFrom, h]
  rfl

theorem normalizeFrom_none {line : List Char} (h : option? line = none)
    (rest : List (List Char)) :
    normalizeFrom none (line :: rest) = line :: normalizeFrom none rest := by
  simp only [normalizeFrom, h]

/-- No statement begins by continuing the option above it. -/
theorem LaysOut.normalizeFrom_some {statements : List Statement} {lines : List (List Char)}
    (h : LaysOut statements lines) (hplain : ∀ s ∈ statements, s.Plain) (o : OptionText) :
    normalizeFrom (some o) lines = o.line :: normalizeFrom none lines := by
  cases h with
  | nil => rfl
  | idle hline _ => exact Sectioned.normalizeFrom_some hline.isContinuation_eq_false o _
  | header hline _ => exact Sectioned.normalizeFrom_some hline.isContinuation_eq_false o _
  | entry hline _ _ =>
    have he : Entry.Plain _ := hplain _ List.mem_cons_self
    exact Sectioned.normalizeFrom_some (hline.isContinuation_eq_false he) o _

/-- Lines that continue a value are added to it. -/
theorem normalizeFrom_append {pieces more : List (List Char)}
    (h : List.Forall₂ ContinuesEntry pieces more)
    (htrim : ∀ piece ∈ pieces, Text.trim piece = piece)
    (hstart : ∀ piece ∈ pieces, piece ≠ [] ∧ isComment piece = false) (o : OptionText)
    (lines : List (List Char)) :
    normalizeFrom (some o) (more ++ lines) =
      normalizeFrom (some (pieces.foldl OptionText.extend o)) lines := by
  induction h generalizing o with
  | nil => rfl
  | @cons piece line pieces more hline _ ih =>
    have hpiece := htrim piece List.mem_cons_self
    have hcontinues := hline.isContinuation_eq_true hpiece (hstart piece List.mem_cons_self)
    have hrest := ih (fun p hp => htrim p (List.mem_cons_of_mem _ hp))
      (fun p hp => hstart p (List.mem_cons_of_mem _ hp)) (o.extend piece)
    rw [List.cons_append, normalizeFrom, if_pos hcontinues, hline.trim_eq hpiece, hrest,
      List.foldl_cons]

/-- The value of an option whose lines are added one by one. -/
theorem foldl_extend (key value : List Char) (more : List (List Char)) :
    more.foldl OptionText.extend ⟨key, value⟩ = ⟨key, ['\n'].intercalate (value :: more)⟩ := by
  induction more generalizing value with
  | nil => simp
  | cons piece rest ih =>
    rw [List.foldl_cons, OptionText.extend, ih]
    cases rest with
    | nil => simp [List.intercalate_cons_cons]
    | cons second rest => simp [List.intercalate_cons_cons]

/-- The plain form of an option that is laid out is one line. -/
theorem BeginsEntry.normalizeFrom_eq {e : Entry} {line : List Char} {more lines : List (List Char)}
    (he : e.Plain) (hline : BeginsEntry e line) (hmore : List.Forall₂ ContinuesEntry e.more more) :
    normalizeFrom none (line :: (more ++ lines)) =
      normalizeFrom (some ⟨e.key, e.value⟩) lines := by
  have htrim : ∀ piece ∈ e.more, Text.trim piece = piece :=
    fun piece hpiece => he.lines_trimmed piece (List.mem_cons_of_mem e.first hpiece)
  simp only [normalizeFrom, hline.option?_eq he]
  rw [normalizeFrom_append hmore htrim he.more_start, foldl_extend]
  rfl

/-- The lines of the plain form, read one by one, are the statements. -/
theorem LaysOut.filterMap_normalizeFrom {statements : List Statement} {lines : List (List Char)}
    (h : LaysOut statements lines) (hplain : ∀ s ∈ statements, s.Plain) :
    (normalizeFrom none lines).filterMap Ini.Line.read? = statements.map Statement.line := by
  -- no option is pending at the start of a statement: an entry takes all lines of its value
  induction h with
  | nil => rfl
  | idle hline _ ih =>
    rw [normalizeFrom_none hline.option?_eq_none, List.filterMap_cons_none hline.read?_eq_none,
      ih hplain]
  | header hline _ ih =>
    obtain ⟨b, hb, rfl⟩ := hplain _ List.mem_cons_self
    rw [normalizeFrom_none hline.option?_eq_none,
      List.filterMap_cons_some (hline.read?_eq hb),
      ih fun s hs => hplain s (List.mem_cons_of_mem _ hs)]
    rfl
  | @entry e statements line more lines hline hmore hrest ih =>
    have he : e.Plain := hplain _ List.mem_cons_self
    have hrestPlain : ∀ s ∈ statements, s.Plain :=
      fun s hs => hplain s (List.mem_cons_of_mem _ hs)
    rw [hline.normalizeFrom_eq he hmore, hrest.normalizeFrom_some hrestPlain,
      List.filterMap_cons_some (Entry.read?_line he), ih hrestPlain]
    rfl

/-! ## Texts -/

/-- A quoted text is one line, since line ends are escaped in it. -/
theorem isOneLine_quote (cs : List Char) : Text.IsOneLine (Json.quote cs) := by
  constructor
  · intro h
    exact (Json.mem_of_mem_quote (by decide) h).2 (by decide)
  · intro h
    exact (Json.mem_of_mem_quote (by decide) h).2 (by decide)

theorem OptionText.isOneLine_line (o : OptionText) : Text.IsOneLine o.line := by
  have hkey := isOneLine_quote o.key
  have hvalue := isOneLine_quote o.value
  constructor
  · simp [line, hkey.1, hvalue.1]
  · simp [line, hkey.2, hvalue.2]

/-- The plain form of lines is lines again. -/
theorem isOneLine_of_mem_normalizeFrom {pending : Option OptionText} {lines : List (List Char)}
    (hlines : ∀ line ∈ lines, Text.IsOneLine line) :
    ∀ line ∈ normalizeFrom pending lines, Text.IsOneLine line := by
  fun_induction normalizeFrom pending lines with
  | case1 pending =>
    intro line hline
    obtain ⟨o, -, rfl⟩ := List.mem_map.mp hline
    exact o.isOneLine_line
  | case2 first rest o hcontinues ih => exact ih (List.forall_mem_cons.mp hlines).2
  | case3 first rest o hcontinues ihNext ih =>
    obtain ⟨hfirst, hrest⟩ := List.forall_mem_cons.mp hlines
    refine List.forall_mem_cons.mpr ⟨o.isOneLine_line, ?_⟩
    split
    · exact ihNext _ hrest
    · exact List.forall_mem_cons.mpr ⟨hfirst, ih hrest⟩
  | case4 first rest next hnext ih => exact ih (List.forall_mem_cons.mp hlines).2
  | case5 first rest hnext ih =>
    obtain ⟨hfirst, hrest⟩ := List.forall_mem_cons.mp hlines
    exact List.forall_mem_cons.mpr ⟨hfirst, ih hrest⟩

/-- The statements of plain blocks can all be read. -/
theorem PlainBlocks.statements_plain {blocks : List Block} (h : PlainBlocks blocks) :
    ∀ s ∈ blocks.flatMap Block.statements, s.Plain := by
  intro s hs
  obtain ⟨b, hb, hmem⟩ := List.mem_flatMap.mp hs
  rcases List.mem_cons.mp hmem with rfl | hmem
  · exact ⟨b, h.plain b hb, rfl⟩
  · obtain ⟨e, he, rfl⟩ := List.mem_map.mp hmem
    exact (h.plain b hb).entries_plain e he

/-- A text of plain blocks is read as their statements. -/
theorem readLines_of_isFileOf {blocks : List Block} {text : List Char} (hplain : PlainBlocks blocks)
    (h : IsFileOf blocks text) :
    Ini.readLines (normalize text) = (blocks.flatMap Block.statements).map Statement.line := by
  obtain ⟨lines, hends, hlays⟩ := h
  have hread := hlays.filterMap_normalizeFrom hplain.statements_plain
  rw [Ini.readLines, normalize, normalizedLines, hends.lines_eq, ← hread]
  by_cases hne : normalizeFrom none lines = []
  · rw [hne]
    rfl
  · rw [Ini.splitLines_intercalate (isOneLine_of_mem_normalizeFrom hends.isOneLine) hne]

end LayeredSettings.Sectioned
