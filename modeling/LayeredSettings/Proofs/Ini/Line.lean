import LayeredSettings.Ini.Line
import LayeredSettings.Proofs.Json.Quote
import LayeredSettings.Proofs.Text.Trim

/-!
# Reading single lines

What lines of the forms that a sectioned text is made of say: headers, options with a quoted name
and a quoted value, and lines that say nothing.

* `readScalar_quote`, `readScalar_pad` — quoted and plain names read as what they are;
* `Line.read?_quoted`, `Line.read?_header`, `Line.read?_of_trimStart` — the three kinds of lines.
-/

namespace LayeredSettings.Ini

/-! ## Names and values -/

theorem trim_quote (cs : List Char) : Text.trim (Json.quote cs) = Json.quote cs := by
  have hquote : Json.quote cs = '"' :: (cs.flatMap Json.escape ++ '"' :: []) := rfl
  have hmark : Text.isBlank '"' = false := by decide
  rw [hquote, Text.trim, Text.trimStart, List.dropWhile_cons_of_neg (by simp [hmark]),
    Text.trimEnd_cons hmark, Text.trimEnd_append_cons _ hmark]
  rfl

/-- A quoted text is read as the text. -/
theorem readScalar_quote (cs : List Char) :
    readScalar (Json.quote cs) = .str (String.ofList cs) := by
  have hquoted : isQuoted (Json.quote cs) = true := by
    simp [isQuoted, Json.quote, List.getLast?_cons]
  have hhead : (Json.quote cs).head? ≠ some '\'' := by
    simp [Json.quote]
  simp only [readScalar, trim_quote, hquoted, if_true, if_neg hhead, Json.read?_quote,
    Option.getD_some]

/-- A text without comment signs and backslashes is not shortened. -/
theorem unescape_of_forall {cs : List Char} (h : ∀ c ∈ cs, c ≠ '\\' ∧ c ≠ ';' ∧ c ≠ '#') :
    unescape cs = cs := by
  induction cs with
  | nil => rfl
  | cons c rest ih =>
    obtain ⟨hback, hsemicolon, hhash⟩ := h c List.mem_cons_self
    have hrest := ih fun d hd => h d (List.mem_cons_of_mem c hd)
    rw [unescape]
    · rw [if_neg (by simp [hsemicolon, hhash]), hrest]
    · intro heq
      exact absurd heq hback
    · intro _ _ heq
      exact absurd heq hback

/-- A plain name is read as itself, whatever white space stands around it. -/
theorem readScalar_pad {before after cs : List Char} (hbefore : Text.IsPadding before)
    (hafter : Text.IsPadding after) (htrim : Text.trim cs = cs)
    (hchars : ∀ c ∈ cs, c ≠ '\\' ∧ c ≠ ';' ∧ c ≠ '#' ∧ c ≠ '"' ∧ c ≠ '\'') :
    readScalar (before ++ cs ++ after) = .str (String.ofList cs) := by
  have hunquoted : isQuoted cs = false := by
    have hmark (mark : Char) (hmark : mark = '"' ∨ mark = '\'') :
        (cs.head? == some mark && cs.getLast? == some mark) = false := by
      rw [Bool.and_eq_false_iff]
      refine .inl ?_
      rw [beq_eq_false_iff_ne]
      intro hhead
      obtain ⟨-, -, -, hdouble, hsingle⟩ := hchars mark (List.mem_of_head? hhead)
      rcases hmark with h | h
      · exact hdouble h
      · exact hsingle h
    simp only [isQuoted, List.any_cons, List.any_nil, hmark '"' (.inl rfl), hmark '\'' (.inr rfl),
      Bool.or_self]
  have hunescape : unescape cs = cs :=
    unescape_of_forall fun c hc => ⟨(hchars c hc).1, (hchars c hc).2.1, (hchars c hc).2.2.1⟩
  simp only [readScalar, Text.trim_pad hbefore hafter htrim, hunquoted, hunescape, htrim]
  rfl

/-! ## Lines -/

/-- A line with a quoted name before an equals sign is an option with this name, if the rest of the
line is one line for the pattern of an option. -/
theorem Line.read?_quote_append {key : List Char} (hkey : '=' ∉ key) (rest : List Char) :
    Line.read? (Json.quote key ++ '=' :: rest) =
      if rest.any Text.isLineTerminator then none
      else some (.option (.str (String.ofList key)) (constant (readScalar rest))) := by
  have hname : ∀ c ∈ Json.quote key, decide (c ≠ '=') = true := by
    intro c hc
    rw [decide_eq_true_iff]
    rintro rfl
    exact hkey (Json.mem_of_mem_quote (by decide) hc).1
  have hequals : decide ('=' ≠ '=') = false := by decide
  have htake := Text.takeWhile_append_cons hname hequals rest
  have hdrop := Text.dropWhile_append_cons hname hequals rest
  have hline : Json.quote key ++ '=' :: rest =
      '"' :: (key.flatMap Json.escape ++ ['"'] ++ '=' :: rest) := rfl
  have hne : Json.quote key ≠ [] := by simp [Json.quote]
  have hstart : Text.trimStart (Json.quote key ++ '=' :: rest) = Json.quote key ++ '=' :: rest := by
    rw [hline, Text.trimStart, List.dropWhile_cons_of_neg (by decide)]
  have hheader : headerName? (Json.quote key ++ '=' :: rest) = none := by
    rw [hline, headerName?]
    simp
  rw [read?, hstart]
  split
  · rename_i h
    simp at h
  · rename_i c tail h
    have hc : c = '"' := by
      rw [hline] at h
      exact (List.cons.inj h).1.symm
    subst hc
    simp only [hheader, htake, hdrop, List.isEmpty_eq_false_iff.mpr hne, readScalar_quote]
    rfl

/-- A quoted name with a quoted value is an option with this name and this value. Of the
characters that end a line for the pattern of an option, quoting leaves the two separators, so the
value must not hold these. -/
theorem Line.read?_quoted {key value : List Char} (hkey : '=' ∉ key)
    (hvalue : '\u2028' ∉ value ∧ '\u2029' ∉ value) :
    Line.read? (Json.quote key ++ '=' :: Json.quote value) =
      some (.option (.str (String.ofList key)) (constant (.str (String.ofList value)))) := by
  have hterminators : ¬ (Json.quote value).any Text.isLineTerminator = true := by
    rw [List.any_eq_true]
    rintro ⟨c, hc, hterminator⟩
    simp only [Text.isLineTerminator, Bool.or_eq_true, beq_iff_eq] at hterminator
    rcases hterminator with ((rfl | rfl) | rfl) | rfl
    · exact (Json.mem_of_mem_quote (by decide) hc).2 (by decide)
    · exact (Json.mem_of_mem_quote (by decide) hc).2 (by decide)
    · exact hvalue.1 (Json.mem_of_mem_quote (by decide) hc).1
    · exact hvalue.2 (Json.mem_of_mem_quote (by decide) hc).1
  rw [read?_quote_append hkey, if_neg hterminators, readScalar_quote]

/-- A name between brackets, whatever white space stands around it, is a header. -/
theorem Line.read?_header {before after rest name : List Char} (hbefore : Text.IsPadding before)
    (hafter : Text.IsPadding after) (hrest : Text.IsPadding rest)
    (htrim : Text.trim name = name)
    (hchars : ∀ c ∈ name, c ≠ ']' ∧ c ≠ '\\' ∧ c ≠ ';' ∧ c ≠ '#' ∧ c ≠ '"' ∧ c ≠ '\'') :
    Line.read? ('[' :: (before ++ name ++ after ++ ']' :: rest)) =
      some (.header (.str (String.ofList name))) := by
  have hpad (pad : List Char) (h : Text.IsPadding pad) : ']' ∉ pad :=
    fun hmem => absurd (h _ hmem) (by decide)
  have hinner : ∀ c ∈ before ++ name ++ after, decide (c ≠ ']') = true := by
    intro c hc
    rw [decide_eq_true_iff]
    rintro rfl
    rcases List.mem_append.mp hc with hc | hc
    · rcases List.mem_append.mp hc with hc | hc
      · exact hpad before hbefore hc
      · exact (hchars _ hc).1 rfl
    · exact hpad after hafter hc
  have hheader : headerName? ('[' :: (before ++ name ++ after ++ ']' :: rest)) =
      some (before ++ name ++ after) := by
    have hbracket : decide (']' ≠ ']') = false := by decide
    have htake := Text.takeWhile_append_cons hinner hbracket rest
    have hdrop := Text.dropWhile_append_cons hinner hbracket rest
    simp only [headerName?, htake, hdrop, List.all_eq_true.mpr hrest, if_true]
  have hname : readScalar (before ++ name ++ after) = .str (String.ofList name) :=
    readScalar_pad hbefore hafter htrim fun c hc => (hchars c hc).2
  rw [read?, Text.trimStart, List.dropWhile_cons_of_neg (by decide)]
  simp only [hheader, hname]
  rfl

/-- White space and comments say nothing. -/
theorem Line.read?_of_trimStart {line : List Char}
    (h : Text.trimStart line = [] ∨
      ∃ c rest, Text.trimStart line = c :: rest ∧ (c = ';' ∨ c = '#')) :
    Line.read? line = none := by
  rw [read?]
  rcases h with h | ⟨c, rest, h, hc⟩
  · rw [h]
  · simp only [h, if_pos hc]

end LayeredSettings.Ini
