import LayeredSettings.Proofs.Sectioned.Quoting

/-!
# Files of headers and options

Files whose lines are headers, options on one line each, and lines that say nothing. A header may
stand in such a file more than once, so it is made of stretches: a header with the options below it.
Each line is read on its own.

* `Assignment`, `Assignment.IsOn` — an option that is given a value, and its line;
* `Assignment.isOn_append`, `Heads.of_isHeader` — such lines and headers as they are written;
* `Clause`, `StandOn` — what lines say one after the other;
* `Stretch`, `IsStretchFile`, `said_of_isStretchFile` — files of stretches, and what they say;
* `assignedTo` — what all stretches of a section give to its options.
-/

namespace LayeredSettings.Sectioned

/-! ## Options on one line -/

/-- A value that is given to the option of a name. -/
structure Assignment extends Ini.Given where
  name : String
deriving DecidableEq, Repr

/-- The key of an assignment as it is written. -/
def Assignment.key (a : Assignment) : String := if a.bracketed then a.name ++ "[]" else a.name

/-- Whether a line is an unindented option with a value for the option of a name. -/
structure Assignment.IsOn (a : Assignment) (line : List Char) : Prop where
  unindented : isIndented line = false
  option?_eq : option? line = some ⟨a.key.toList, a.value.toList⟩
  unbracketed : a.bracketed = false → ¬ ['[', ']'] <:+ a.name.toList

theorem isPrefix_trimEnd (cs : List Char) : Text.trimEnd cs <+: cs := by
  rw [← List.reverse_suffix, Text.trimEnd, List.reverse_reverse]
  exact List.dropWhile_suffix _

/-- What is split off a line comes from the line, and the value is one line. -/
theorem splitOption?_eq_some {trimmed : List Char} {o : OptionText}
    (h : splitOption? trimmed = some o) :
    o.key <+: trimmed ∧ ∀ c ∈ o.value, Text.isLineTerminator c = false := by
  unfold splitOption? at h
  split at h
  · cases h
  · dsimp only at h
    split at h
    · cases h
    · rename_i hterminator
      obtain rfl := Option.some.inj h
      refine ⟨(isPrefix_trimEnd _).trans (List.takeWhile_prefix _), fun c hc => ?_⟩
      rw [Bool.eq_false_iff]
      intro hend
      exact hterminator (List.any_eq_true.mpr ⟨c, hc, hend⟩)

/-- A line that begins with a bracket is no option. -/
theorem head?_key_ne {line : List Char} {o : OptionText} (h : option? line = some o) :
    o.key.head? ≠ some '[' := by
  simp only [option?] at h
  split at h
  · cases h
  · rename_i hstart
    intro hhead
    obtain ⟨rest, hkey⟩ := List.head?_eq_some_iff.mp hhead
    obtain ⟨tail, hline⟩ := (splitOption?_eq_some h).1
    apply hstart
    rw [← hline, hkey]
    simp

theorem isLineTerminator_of_mem_value {line : List Char} {o : OptionText}
    (h : option? line = some o) : ∀ c ∈ o.value, Text.isLineTerminator c = false := by
  simp only [option?] at h
  split at h
  · cases h
  · exact (splitOption?_eq_some h).2

/-- Every unindented option on one line gives some option a value. -/
theorem exists_isOn {line : List Char} {o : OptionText} (hline : isIndented line = false)
    (h : option? line = some o) : ∃ a : Assignment, a.IsOn line := by
  by_cases hbrackets : ['[', ']'] <:+ o.key
  · obtain ⟨name, hname⟩ := hbrackets
    refine ⟨⟨⟨true, String.ofList o.value⟩, String.ofList name⟩, hline, ?_, nofun⟩
    have hkey : (String.ofList name ++ "[]").toList = o.key := by
      rw [String.toList_append, String.toList_ofList]
      exact hname
    simp [Assignment.key, h, hkey]
  · refine ⟨⟨⟨false, String.ofList o.value⟩, String.ofList o.key⟩, hline, ?_, fun _ => ?_⟩
    · simp [Assignment.key, h]
    · rwa [String.toList_ofList]

/-- A trimmed name and a trimmed value with a delimiter between them make such a line, with blanks
around the delimiter and at its end. -/
theorem Assignment.isOn_append {a : Assignment} {before after rest : List Char} {delimiter : Char}
    (htrimmed : Text.trim a.key.toList = a.key.toList) (hne : a.key.toList ≠ [])
    (hstart : ∀ c ∈ a.key.toList.head?, c ≠ '#' ∧ c ≠ ';' ∧ c ≠ '[')
    (hchars : ∀ c ∈ a.key.toList, isDelimiter c = false)
    (hunbracketed : a.bracketed = false → ¬ ['[', ']'] <:+ a.name.toList)
    (hbefore : Text.IsPadding before) (hdelimiter : isDelimiter delimiter = true)
    (hafter : Text.IsPadding after) (hrest : Text.IsPadding rest)
    (hvalue : Text.trim a.value.toList = a.value.toList)
    (hterminators : ∀ c ∈ a.value.toList, Text.isLineTerminator c = false) :
    a.IsOn (a.key.toList ++ before ++ delimiter :: (after ++ a.value.toList ++ rest)) := by
  have htrim : Text.trim (after ++ a.value.toList ++ rest) = a.value.toList :=
    Text.trim_pad hafter hrest hvalue
  refine ⟨?_, ?_, hunbracketed⟩
  · obtain ⟨c, key, hkey⟩ := List.exists_cons_of_ne_nil hne
    have hc : Text.isBlank c = false := by
      apply Text.isBlank_of_trim_eq_cons
      rw [htrimmed, hkey]
    simp [isIndented, hkey, hc]
  · rw [option?_append htrimmed hne hstart hchars hbefore hdelimiter, htrim]
    rwa [htrim]

namespace Assignment.IsOn

variable {a : Assignment} {line : List Char}

theorem name_ne_empty (h : a.IsOn line) (hbracketed : a.bracketed = true) : a.name ≠ "" := by
  intro hname
  apply head?_key_ne h.option?_eq
  simp [key, hbracketed, hname]

/-- The key of an assignment is read as its name, in brackets or not. -/
theorem optionName_eq (h : a.IsOn line) :
    Ini.OptionName.of (.str a.key) = .ok { name := .text a.name, bracketed := a.bracketed } := by
  cases hbracketed : a.bracketed with
  | true =>
    rw [key, hbracketed, if_pos rfl]
    exact Ini.OptionName.of_bracketed (h.name_ne_empty hbracketed)
  | false =>
    rw [key, hbracketed, if_neg Bool.false_ne_true]
    exact Ini.OptionName.of_unbracketed (h.unbracketed hbracketed)

theorem isContinuation_eq_false (h : a.IsOn line) : isContinuation line = false := by
  simp [isContinuation, h.unindented]

end Assignment.IsOn

/-! ## Lines one after the other -/

/-- What a line says in a file of headers and options. -/
inductive Clause where
  | header (name : String)
  | assignment (a : Assignment)

/-- A clause as it is read. -/
def Clause.line : Clause → Ini.Line
  | header name => .header (.str name)
  | assignment a => .option (.str a.key) (Ini.constant (.str a.value))

/-- Whether a line is the unindented header of the section of a name, whatever is between its
brackets. -/
structure Heads (name : String) (line : List Char) : Prop where
  isOneLine : Text.IsOneLine line
  form : ∃ inner rest, ']' ∉ inner ∧ Text.IsPadding rest ∧ Ini.readScalar inner = .str name ∧
    line = '[' :: (inner ++ ']' :: rest)

/-- Whether a line says a clause. -/
def Clause.IsOn : Clause → List Char → Prop
  | header name, line => Heads name line
  | assignment a, line => a.IsOn line

/-- Lines that say some clauses in their order, and others between them that say nothing. -/
inductive StandOn : List Clause → List (List Char) → Prop
  | nil : StandOn [] []
  | idle {clauses : List Clause} {line : List Char} {lines : List (List Char)} :
      Text.IsOneLine line → IsIdle line → StandOn clauses lines → StandOn clauses (line :: lines)
  | clause {c : Clause} {clauses : List Clause} {line : List Char} {lines : List (List Char)} :
      c.IsOn line → StandOn clauses lines → StandOn (c :: clauses) (line :: lines)

namespace Heads

variable {name : String} {line : List Char}

/-- A plain name, with blanks about, is the name of a header. -/
theorem of_isHeader (hline : Text.IsOneLine line) (htrim : Text.trim name.toList = name.toList)
    (hchars : ∀ c ∈ name.toList, c ≠ ']' ∧ c ≠ '\\' ∧ c ≠ ';' ∧ c ≠ '#' ∧ c ≠ '"' ∧ c ≠ '\'')
    (h : IsHeader name line) : Heads name line := by
  obtain ⟨before, after, rest, hbefore, hafter, hrest, rfl⟩ := h
  have hread := Ini.readScalar_pad hbefore hafter htrim fun c hc => (hchars c hc).2
  rw [String.ofList_toList] at hread
  have hpad (pad : List Char) (hpad : Text.IsPadding pad) : ']' ∉ pad :=
    fun hmem => absurd (hpad _ hmem) (by decide)
  have hname : ']' ∉ name.toList := fun hmem => (hchars _ hmem).1 rfl
  refine ⟨hline, before ++ name.toList ++ after, rest, ?_, hrest, hread, rfl⟩
  simp [hpad before hbefore, hpad after hafter, hname]

theorem option?_eq_none (h : Heads name line) : option? line = none := by
  obtain ⟨inner, rest, -, -, -, rfl⟩ := h.form
  rw [option?, Text.trim, Text.trimStart, List.dropWhile_cons_of_neg (by decide),
    Text.trimEnd_cons (by decide)]
  simp

theorem isContinuation_eq_false (h : Heads name line) : isContinuation line = false := by
  obtain ⟨inner, rest, -, -, -, rfl⟩ := h.form
  have hblank : Text.isBlank '[' = false := by decide
  simp [isContinuation, isIndented, hblank]

theorem read?_eq (h : Heads name line) : Ini.Line.read? line = some (.header (.str name)) := by
  obtain ⟨inner, rest, hinner, hrest, hname, rfl⟩ := h.form
  have hstops : ∀ c ∈ inner, decide (c ≠ ']') = true := by
    intro c hc
    rw [decide_eq_true_iff]
    rintro rfl
    exact hinner hc
  have hbracket : decide (']' ≠ ']') = false := by decide
  have hheader : Ini.headerName? ('[' :: (inner ++ ']' :: rest)) = some inner := by
    have htake := Text.takeWhile_append_cons hstops hbracket rest
    have hdrop := Text.dropWhile_append_cons hstops hbracket rest
    simp only [Ini.headerName?, htake, hdrop, List.all_eq_true.mpr hrest, if_true]
  rw [Ini.Line.read?, Text.trimStart, List.dropWhile_cons_of_neg (by decide)]
  simp only [hheader, hname]
  rfl

end Heads

theorem Clause.IsOn.isContinuation_eq_false {c : Clause} {line : List Char} (h : c.IsOn line) :
    isContinuation line = false := by
  cases c with
  | header name => exact Heads.isContinuation_eq_false h
  | assignment a => exact Assignment.IsOn.isContinuation_eq_false h

/-- A line says its clause. -/
theorem Clause.IsOn.said_ofLine {c : Clause} {line : List Char} (h : c.IsOn line) :
    (Piece.ofLine line).said = [c.line] := by
  cases c with
  | header name =>
    have hhead : Heads name line := h
    rw [Piece.ofLine, hhead.option?_eq_none]
    show Ini.readLines line = _
    rw [Ini.readLines, Ini.splitLines_of_isOneLine hhead.isOneLine,
      List.filterMap_cons_some hhead.read?_eq]
    rfl
  | assignment a =>
    have hoption := Assignment.IsOn.option?_eq h
    have hvalue : ¬ HasSeparator a.value.toList := by
      rintro (hmem | hmem)
      · exact absurd (isLineTerminator_of_mem_value hoption _ hmem) (by decide)
      · exact absurd (isLineTerminator_of_mem_value hoption _ hmem) (by decide)
    rw [Piece.ofLine, hoption]
    show Ini.readLines (OptionText.line ⟨a.key.toList, a.value.toList⟩) = _
    rw [OptionText.readLines_line (isDelimiter_of_mem_key hoption) hvalue]
    simp [OptionText.said, OptionText.name, OptionText.text, Clause.line]

namespace StandOn

variable {clauses : List Clause} {lines : List (List Char)}

theorem isContinuation_eq_false (h : StandOn clauses lines) :
    ∀ line ∈ lines, isContinuation line = false := by
  induction h with
  | nil => exact fun _ hline => absurd hline List.not_mem_nil
  | idle _ hidle _ ih => exact List.forall_mem_cons.mpr ⟨hidle.isContinuation_eq_false, ih⟩
  | clause hline _ ih => exact List.forall_mem_cons.mpr ⟨hline.isContinuation_eq_false, ih⟩

/-- Lines say their clauses. -/
theorem saidBy_eq (h : StandOn clauses lines) : saidBy lines = clauses.map Clause.line := by
  rw [saidBy_of_forall h.isContinuation_eq_false]
  induction h with
  | nil => rfl
  | @idle clauses line lines hone hidle _ ih =>
    have hsilent : (Piece.ofLine line).said = [] := by
      rw [Piece.ofLine, hidle.option?_eq_none]
      exact hidle.readLines_eq_nil hone
    rw [List.flatMap_cons, hsilent, ih]
    rfl
  | clause hline _ ih =>
    rw [List.flatMap_cons, hline.said_ofLine, ih]
    rfl

theorem length_le (h : StandOn clauses lines) : clauses.length ≤ lines.length := by
  induction h with
  | nil => exact Nat.le_refl 0
  | idle _ _ _ ih => exact Nat.le_succ_of_le ih
  | clause _ _ ih => exact Nat.succ_le_succ ih

/-- Every clause is on a line. -/
theorem exists_isOn (h : StandOn clauses lines) : ∀ c ∈ clauses, ∃ line, c.IsOn line := by
  induction h with
  | nil => exact fun _ hc => absurd hc List.not_mem_nil
  | idle _ _ _ ih => exact ih
  | @clause c clauses line lines hline _ ih => exact List.forall_mem_cons.mpr ⟨⟨line, hline⟩, ih⟩

end StandOn

/-! ## Stretches -/

/-- A header and the options below it. -/
structure Stretch where
  name : String
  assignments : List Assignment
deriving DecidableEq, Repr

/-- What the lines of a stretch say. -/
def Stretch.clauses (s : Stretch) : List Clause :=
  .header s.name :: s.assignments.map .assignment

/-- Whether the name of a stretch is that of a section of its own: it leads into no other section,
and files may have it. -/
structure Stretch.Plain (s : Stretch) : Prop where
  undotted : '.' ∉ s.name.toList
  name_ne_proto : s.name ≠ "__proto__"
  unreserved : s.name ≠ reservedSection

/-- The texts of stretches. -/
structure IsStretchFile (stretches : List Stretch) (text : List Char) : Prop where
  plain : ∀ s ∈ stretches, s.Plain
  standOn : StandOn (stretches.flatMap Stretch.clauses) (Text.fileLines text)

theorem said_of_isStretchFile {stretches : List Stretch} {text : List Char}
    (h : IsStretchFile stretches text) :
    said text = (stretches.flatMap Stretch.clauses).map Clause.line := by
  rw [said_eq_saidBy_fileLines, h.standOn.saidBy_eq]

/-- Every assignment of a file is on a line of it. -/
theorem IsStretchFile.exists_isOn {stretches : List Stretch} {text : List Char}
    (h : IsStretchFile stretches text) {s : Stretch} (hs : s ∈ stretches) {a : Assignment}
    (ha : a ∈ s.assignments) : ∃ line, a.IsOn line := by
  have hclause : Clause.assignment a ∈ stretches.flatMap Stretch.clauses :=
    List.mem_flatMap.mpr ⟨s, hs, List.mem_cons_of_mem _ (List.mem_map_of_mem ha)⟩
  exact h.standOn.exists_isOn _ hclause

/-- All assignments to options of a section, in their order. -/
def assignedTo (stretches : List Stretch) (name : String) : List Assignment :=
  (stretches.filter fun s => s.name = name).flatMap Stretch.assignments

theorem assignedTo_cons (s : Stretch) (rest : List Stretch) (name : String) :
    assignedTo (s :: rest) name =
      if s.name = name then s.assignments ++ assignedTo rest name else assignedTo rest name := by
  unfold assignedTo
  by_cases hname : s.name = name
  · simp [hname]
  · simp [hname]

theorem exists_stretch_of_mem {stretches : List Stretch} {name : String} {a : Assignment}
    (h : a ∈ assignedTo stretches name) : ∃ s ∈ stretches, s.name = name := by
  obtain ⟨s, hs, -⟩ := List.mem_flatMap.mp h
  obtain ⟨hs, hname⟩ := List.mem_filter.mp hs
  exact ⟨s, hs, by simpa using hname⟩

theorem assignedTo_eq_nil {stretches : List Stretch} {name : String}
    (h : ¬ ∃ s ∈ stretches, s.name = name) : assignedTo stretches name = [] :=
  List.eq_nil_iff_forall_not_mem.mpr fun _ ha => h (exists_stretch_of_mem ha)

theorem length_assignedTo_le (stretches : List Stretch) (name : String) :
    (assignedTo stretches name).length ≤ (stretches.flatMap Stretch.clauses).length := by
  induction stretches with
  | nil => exact Nat.le_refl 0
  | cons s rest ih =>
    rw [assignedTo_cons, List.flatMap_cons, List.length_append]
    split
    · rw [List.length_append, Stretch.clauses, List.length_cons, List.length_map]
      omega
    · omega

/-- A text has a character for each assignment in it. -/
theorem IsStretchFile.length_assignedTo_le {stretches : List Stretch} {text : List Char}
    (h : IsStretchFile stretches text) (name : String) :
    (assignedTo stretches name).length ≤ text.length + 1 := by
  have hclauses := Sectioned.length_assignedTo_le stretches name
  have hlines := h.standOn.length_le
  have htext := Text.length_fileLines_le text
  omega

end LayeredSettings.Sectioned
