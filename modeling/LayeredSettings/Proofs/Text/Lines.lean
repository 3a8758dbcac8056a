import LayeredSettings.Text.Lines
import LayeredSettings.Ini.Line
import Mathlib.Data.List.Basic

/-!
# Ending lines

Lines make up a text in many ways, since each may end in a line feed with or without a carriage
return before it. All of them are read alike.

* `Ending.lines_eq` — however its lines end, a text is read as these lines;
* `fileLines`, `exists_lines_eq` — the lines of a file without their ends;
* `Ini.splitLines_intercalate` — lines joined by line feeds are split into the same lines;
* `splitAt_joinWith` — a text is divided into the parts that it was joined from.
-/

namespace LayeredSettings.Text

/-- Whether a line holds neither of the characters that end lines. -/
def IsOneLine (line : List Char) : Prop := '\n' ∉ line ∧ '\r' ∉ line

instance (line : List Char) : Decidable (IsOneLine line) :=
  inferInstanceAs (Decidable ('\n' ∉ line ∧ '\r' ∉ line))

@[simp] theorem isOneLine_nil : IsOneLine [] := ⟨List.not_mem_nil, List.not_mem_nil⟩

@[simp] theorem isOneLine_cons {c : Char} {line : List Char} :
    IsOneLine (c :: line) ↔ (c ≠ '\n' ∧ c ≠ '\r') ∧ IsOneLine line := by
  simp only [IsOneLine, List.mem_cons, not_or, eq_comm, ne_eq]
  exact and_and_and_comm

@[simp] theorem isOneLine_append {first second : List Char} :
    IsOneLine (first ++ second) ↔ IsOneLine first ∧ IsOneLine second := by
  simp only [IsOneLine, List.mem_append, not_or]
  exact and_and_and_comm

/-- A text whose lines are given. Each line but the last ends in a line feed, or in a carriage
return and a line feed. -/
inductive Ending : List (List Char) → List Char → Prop
  | last {line : List Char} : IsOneLine line → Ending [line] line
  | feed {line : List Char} {lines : List (List Char)} {text : List Char} :
      IsOneLine line → Ending lines text → Ending (line :: lines) (line ++ '\n' :: text)
  | carriage {line : List Char} {lines : List (List Char)} {text : List Char} :
      IsOneLine line → Ending lines text → Ending (line :: lines) (line ++ '\r' :: '\n' :: text)

/-- The lines of a text are one line each. -/
theorem Ending.isOneLine {lines : List (List Char)} {text : List Char} (h : Ending lines text) :
    ∀ line ∈ lines, IsOneLine line := by
  induction h with
  | last hline =>
    intro line hmem
    rw [List.mem_singleton.mp hmem]
    exact hline
  | feed hline _ ih => exact List.forall_mem_cons.mpr ⟨hline, ih⟩
  | carriage hline _ ih => exact List.forall_mem_cons.mpr ⟨hline, ih⟩

/-! ## Reading lines -/

theorem dropCarriage_of_isOneLine {line : List Char} (h : IsOneLine line) :
    dropCarriage line = line := by
  unfold dropCarriage
  split
  · rename_i hlast
    exact absurd (List.mem_of_getLast? hlast) h.2
  · rfl

theorem dropCarriage_append (line : List Char) : dropCarriage (line ++ ['\r']) = line := by
  simp [dropCarriage]

theorem lines_of_not_mem {line : List Char} (h : '\n' ∉ line) : lines line = [line] := by
  simp [lines, List.splitOn_eq_singleton h]

/-- What stands before a line feed is a line, without a carriage return at its end. -/
theorem lines_append_feed {line : List Char} (h : '\n' ∉ line) (text : List Char) :
    lines (line ++ '\n' :: text) = dropCarriage line :: lines text := by
  have hsplit : (line ++ '\n' :: text).splitOn '\n' = line :: text.splitOn '\n' :=
    List.splitOn_append_cons_self_of_not_mem h text
  obtain ⟨first, rest, hrest⟩ := List.exists_cons_of_ne_nil (List.splitOn_ne_nil '\n' text)
  simp only [lines, hsplit, hrest]
  simp

/-- However its lines end, a text is read as these lines. -/
theorem Ending.lines_eq {pieces : List (List Char)} {text : List Char} (h : Ending pieces text) :
    lines text = pieces := by
  induction h with
  | last hline => exact lines_of_not_mem hline.1
  | feed hline _ ih => rw [lines_append_feed hline.1, dropCarriage_of_isOneLine hline, ih]
  | @carriage line pieces text hline _ ih =>
    have hnot : '\n' ∉ line ++ ['\r'] := by
      simp only [List.mem_append, List.mem_singleton, not_or]
      exact ⟨hline.1, by decide⟩
    have hassoc : line ++ '\r' :: '\n' :: text = (line ++ ['\r']) ++ '\n' :: text := by simp
    rw [hassoc, lines_append_feed hnot, dropCarriage_append, ih]

/-! ## The lines of a file -/

/-- The lines of a file without their ends. After the last line feed there is a line only if there
is something in it. -/
def fileLines (text : List Char) : List (List Char) :=
  let pieces := text.splitOn '\n'
  (if pieces.getLast? = some [] then pieces.dropLast else pieces).map dropCarriage

/-- Whether a text is empty or ends in a line feed, so that the next line can begin. -/
def IsClosed (text : List Char) : Prop := text = [] ∨ ['\n'] <:+ text

/-- The lines that are read are those of the file, but for what stands after the last line feed. -/
theorem exists_lines_eq (text : List Char) :
    ∃ init last, lines text = init ++ [last] ∧
      fileLines text = init ++ if last = [] then [] else [dropCarriage last] := by
  have hne := List.splitOn_ne_nil '\n' text
  obtain ⟨init, last, hsplit⟩ : ∃ init last, text.splitOn '\n' = init ++ [last] :=
    ⟨_, _, (List.dropLast_append_getLast hne).symm⟩
  refine ⟨init.map dropCarriage, last, by simp [lines, hsplit], ?_⟩
  by_cases hlast : last = []
  · simp [fileLines, hsplit, hlast]
  · simp [fileLines, hsplit, hlast]

theorem isClosed_intercalate (init : List (List Char)) :
    IsClosed (['\n'].intercalate (init ++ [[]])) := by
  induction init with
  | nil => exact .inl rfl
  | cons first rest ih =>
    obtain ⟨second, more, hrest⟩ := List.exists_cons_of_ne_nil
      (List.append_ne_nil_of_right_ne_nil rest (List.cons_ne_nil [] []))
    rw [hrest] at ih
    rw [List.cons_append, hrest, List.intercalate_cons_cons]
    right
    rcases ih with hempty | hsuffix
    · rw [hempty, List.append_nil]
      exact List.suffix_append first ['\n']
    · exact hsuffix.trans (List.suffix_append _ _)

theorem isClosed_of_getLast? {text : List Char} (h : (text.splitOn '\n').getLast? = some []) :
    IsClosed text := by
  obtain ⟨init, hsplit⟩ := List.getLast?_eq_some_iff.mp h
  have hjoin : ['\n'].intercalate (text.splitOn '\n') = text := List.intercalate_splitOn '\n'
  rw [← hjoin, hsplit]
  exact isClosed_intercalate init

theorem fileLines_append_feed (before after : List Char) :
    fileLines (before ++ '\n' :: after) =
      (before.splitOn '\n').map dropCarriage ++ fileLines after := by
  have hsplit : (before ++ '\n' :: after).splitOn '\n' =
      before.splitOn '\n' ++ after.splitOn '\n' :=
    List.splitOn_append_cons_self before after
  have hne := List.splitOn_ne_nil '\n' after
  simp only [fileLines, hsplit, List.getLast?_append_of_ne_nil _ hne]
  split
  · rw [List.dropLast_append_of_ne_nil hne, List.map_append]
  · rw [List.map_append]

/-- What stands before a line that begins does not change it. -/
theorem IsClosed.fileLines_append {before : List Char} (h : IsClosed before) (after : List Char) :
    fileLines (before ++ after) = fileLines before ++ fileLines after := by
  rcases h with rfl | ⟨init, rfl⟩
  · rfl
  · rw [List.append_assoc, List.singleton_append, fileLines_append_feed, fileLines_append_feed]
    simp [fileLines]

theorem fileLines_of_isOneLine {line : List Char} (h : IsOneLine line) (hne : line ≠ []) :
    fileLines line = [line] := by
  simp [fileLines, List.splitOn_eq_singleton h.1, hne, dropCarriage_of_isOneLine h]

theorem length_splitOn_le (separator : Char) (text : List Char) :
    (text.splitOn separator).length ≤ text.length + 1 := by
  induction text with
  | nil => exact Nat.le_refl 1
  | cons c rest ih =>
    rw [List.splitOn_cons_eq_if_modifyHead, List.length_cons]
    split
    · rw [List.length_cons]
      omega
    · rw [List.length_modifyHead]
      omega

theorem length_fileLines_le (text : List Char) : (fileLines text).length ≤ text.length + 1 := by
  have hpieces := length_splitOn_le '\n' text
  rw [fileLines, List.length_map]
  split
  · rw [List.length_dropLast]
    omega
  · exact hpieces

/-! ## Dividing texts -/

theorem splitAt_ne_nil (separator : Char) (s : String) : splitAt separator s ≠ [] := by
  intro h
  exact List.splitOn_ne_nil separator s.toList (List.map_eq_nil_iff.mp h)

/-- A piece has nothing but what stands in the whole, and no separator. -/
theorem mem_of_mem_splitOn {separator : Char} {cs piece : List Char}
    (h : piece ∈ cs.splitOn separator) : ∀ c ∈ piece, c ∈ cs ∧ c ≠ separator := by
  induction cs generalizing piece with
  | nil =>
    rw [List.splitOn_nil, List.mem_singleton] at h
    rw [h]
    exact fun _ hc => absurd hc List.not_mem_nil
  | cons d rest ih =>
    have hmore {piece : List Char} (hpiece : piece ∈ rest.splitOn separator) :
        ∀ c ∈ piece, c ∈ d :: rest ∧ c ≠ separator :=
      fun c hc => ⟨List.mem_cons_of_mem d (ih hpiece c hc).1, (ih hpiece c hc).2⟩
    rw [List.splitOn_cons_eq_if_modifyHead] at h
    split at h
    · rcases List.mem_cons.mp h with rfl | h
      · exact fun _ hc => absurd hc List.not_mem_nil
      · exact hmore h
    · rename_i hd
      obtain ⟨first, others, hsplit⟩ := List.exists_cons_of_ne_nil
        (List.splitOn_ne_nil separator rest)
      rw [hsplit] at hmore h
      rcases List.mem_cons.mp h with rfl | h
      · intro c hc
        rcases List.mem_cons.mp hc with rfl | hc
        · exact ⟨List.mem_cons_self, by simpa using hd⟩
        · exact hmore List.mem_cons_self c hc
      · exact hmore (List.mem_cons_of_mem first h)

/-- No part of a divided text has the separator. -/
theorem not_mem_of_mem_splitAt {separator : Char} {s part : String}
    (h : part ∈ splitAt separator s) : separator ∉ part.toList := by
  obtain ⟨piece, hpiece, rfl⟩ := List.mem_map.mp h
  rw [String.toList_ofList]
  exact fun hmem => (mem_of_mem_splitOn hpiece separator hmem).2 rfl

theorem splitAt_of_not_mem {separator : Char} {s : String} (h : separator ∉ s.toList) :
    splitAt separator s = [s] := by
  rw [splitAt, List.splitOn_eq_singleton h, List.map_singleton, String.ofList_toList]

/-- What stands before a separator is a part of its own. -/
theorem splitAt_append_cons {separator : Char} {part : String} (h : separator ∉ part.toList)
    (rest : String) :
    splitAt separator (part ++ String.singleton separator ++ rest) =
      part :: splitAt separator rest := by
  rw [splitAt, String.toList_append, String.toList_append, String.toList_singleton,
    List.append_assoc, List.singleton_append, List.splitOn_append_cons_self_of_not_mem h,
    List.map_cons, String.ofList_toList]
  rfl

/-- A text is divided into the parts that it was joined from. -/
theorem splitAt_joinWith {separator : Char} {parts : List String}
    (h : ∀ part ∈ parts, separator ∉ part.toList) (hne : parts ≠ []) :
    splitAt separator (joinWith separator parts) = parts := by
  rw [splitAt, joinWith, String.toList_ofList,
    List.splitOn_intercalate separator (by simpa using h) (by simpa using hne), List.map_map]
  simp [Function.comp_def]

theorem splitOn_intercalate_eq_flatMap (separator : Char) {parts : List (List Char)}
    (hne : parts ≠ []) :
    ([separator].intercalate parts).splitOn separator =
      parts.flatMap fun part => part.splitOn separator := by
  induction parts with
  | nil => exact absurd rfl hne
  | cons first rest ih =>
    cases rest with
    | nil => simp
    | cons second rest =>
      rw [List.intercalate_cons_cons, List.append_assoc, List.singleton_append,
        List.splitOn_append_cons_self, ih (List.cons_ne_nil second rest)]
      rfl

/-- Where the parts have separators themselves, they are divided as well. -/
theorem splitAt_joinWith_eq_flatMap (separator : Char) {parts : List String} (hne : parts ≠ []) :
    splitAt separator (joinWith separator parts) = parts.flatMap (splitAt separator) := by
  rw [splitAt, joinWith, String.toList_ofList,
    splitOn_intercalate_eq_flatMap separator (by simpa using hne), List.map_flatMap,
    List.flatMap_map]
  rfl

end LayeredSettings.Text

namespace LayeredSettings.Ini

theorem splitLines_of_isOneLine {line : List Char} (h : Text.IsOneLine line) :
    splitLines line = [line] := by
  refine List.splitOnP_eq_singleton ?_
  intro c hc
  have hfeed : c ≠ '\n' := fun heq => h.1 (heq ▸ hc)
  have hcarriage : c ≠ '\r' := fun heq => h.2 (heq ▸ hc)
  simp [hfeed, hcarriage]

/-- Lines joined by line feeds are split into the same lines. -/
theorem splitLines_intercalate {lines : List (List Char)}
    (h : ∀ line ∈ lines, Text.IsOneLine line) (hne : lines ≠ []) :
    splitLines (['\n'].intercalate lines) = lines := by
  induction lines with
  | nil => exact absurd rfl hne
  | cons first rest ih =>
    have hfirst := h first List.mem_cons_self
    cases rest with
    | nil =>
      rw [List.intercalate_singleton]
      exact splitLines_of_isOneLine hfirst
    | cons second rest =>
      have hrest := ih (fun line hline => h line (List.mem_cons_of_mem first hline)) (by simp)
      have hstop : ∀ c ∈ first, (c == '\n' || c == '\r') = false := by
        intro c hc
        have hfeed : c ≠ '\n' := fun heq => hfirst.1 (heq ▸ hc)
        have hcarriage : c ≠ '\r' := fun heq => hfirst.2 (heq ▸ hc)
        simp [hfeed, hcarriage]
      have hjoin : ['\n'].intercalate (first :: second :: rest) =
          first ++ '\n' :: ['\n'].intercalate (second :: rest) := by
        simp [List.intercalate_cons_cons]
      rw [hjoin, splitLines, List.splitOnP_append_cons_of_forall_mem hstop '\n' (by simp)]
      rw [splitLines] at hrest
      rw [hrest]

end LayeredSettings.Ini
