import LayeredSettings.Proofs.Sectioned.PlainForm

/-!
# The pieces of the plain form

The plain form of a text is made of options, each with all the lines of its value, and of lines that
are left as they are. Read piece by piece, it is the form that `normalize` writes; what one piece
says does not hang on the others.

* `piecesFrom`, `normalizeFrom_eq` — the pieces, and that their lines are the plain form;
* `GoesOn`, `piecesFrom_append` — lines fall into the pieces of two parts, unless a value goes on
  from one part to the other;
* `saidBy`, `said_eq_saidBy` — what lines say;
* `said_eq_saidBy_fileLines` — the lines of a file are all that counts;
* `saidBy_of_forall` — where nothing is continued, every line speaks for itself.
-/

namespace LayeredSettings.Text

theorem trim_dropCarriage (line : List Char) : trim (dropCarriage line) = trim line := by
  unfold dropCarriage
  split
  · rename_i hlast
    obtain ⟨init, rfl⟩ := List.getLast?_eq_some_iff.mp hlast
    have hblank : IsPadding ['\r'] := by decide
    rw [List.dropLast_concat, ← trimStart_trimEnd, ← trimStart_trimEnd, trimEnd_append hblank]
  · rfl

end LayeredSettings.Text

namespace LayeredSettings.Sectioned

/-- What the plain form is made of. -/
inductive Piece where
  /-- An option, which is written on one line with its name and its value quoted. -/
  | option (o : OptionText)
  /-- A line that is left as it is. -/
  | kept (line : List Char)

namespace Piece

/-- The line of a piece in the plain form. -/
def line : Piece → List Char
  | option o => o.line
  | kept line => line

/-- What a piece says. -/
def said (p : Piece) : List Ini.Line := Ini.readLines p.line

/-- The piece that a line is when it continues nothing and is not continued. -/
def ofLine (line : List Char) : Piece :=
  match option? line with
  | some o => option o
  | none => kept line

end Piece

/-- The pieces that lines make up, after an option that may still be continued. -/
def piecesFrom (pending : Option OptionText) : List (List Char) → List Piece
  | [] => pending.toList.map .option
  | line :: rest =>
    if pending.isSome && isContinuation line then
      piecesFrom (pending.map fun o => o.extend (Text.trim line)) rest
    else pending.toList.map .option ++
      match option? line with
      | some next => piecesFrom (some next) rest
      | none => .kept line :: piecesFrom none rest

/-- The pieces of lines. -/
def pieces (lines : List (List Char)) : List Piece := piecesFrom none lines

/-- The lines of the pieces are the plain form. -/
theorem normalizeFrom_eq (pending : Option OptionText) (lines : List (List Char)) :
    normalizeFrom pending lines = (piecesFrom pending lines).map Piece.line := by
  induction lines generalizing pending with
  | nil =>
    cases pending with
    | none => rfl
    | some o => rfl
  | cons line rest ih =>
    cases pending with
    | none =>
      simp only [normalizeFrom, piecesFrom]
      cases option? line with
      | none => simp [ih, Piece.line]
      | some next => simp [ih]
    | some o =>
      by_cases hcontinues : isContinuation line = true
      · simp [normalizeFrom, piecesFrom, hcontinues, ih]
      · simp only [normalizeFrom, piecesFrom, hcontinues]
        cases option? line with
        | none => simp [ih, Piece.line]
        | some next => simp [ih, Piece.line]

/-! ## Parts of the lines -/

/-- Whether a value goes on from one part of the lines to the next: the first part ends in an
option, and the first line of the next continues it. -/
def GoesOn (before after : List (List Char)) : Prop :=
  (∃ o, (pieces before).getLast? = some (.option o)) ∧
    ∃ next ∈ after.head?, isContinuation next = true

theorem piecesFrom_cons_of_not {line : List Char} (h : isContinuation line = false)
    (pending : Option OptionText) (rest : List (List Char)) :
    piecesFrom pending (line :: rest) = pending.toList.map .option ++ pieces (line :: rest) := by
  simp [piecesFrom, pieces, h]

/-- Lines fall into the pieces of two parts, unless a value goes on from one to the other. -/
theorem piecesFrom_append {pending : Option OptionText} {before after : List (List Char)}
    (h : (∃ o, (piecesFrom pending before).getLast? = some (.option o)) →
      ∀ next ∈ after.head?, isContinuation next = false) :
    piecesFrom pending (before ++ after) = piecesFrom pending before ++ pieces after := by
  induction before generalizing pending with
  | nil =>
    cases pending with
    | none => rfl
    | some o =>
      cases after with
      | nil => rfl
      | cons next rest =>
        have hnext : isContinuation next = false := h ⟨o, rfl⟩ next rfl
        exact piecesFrom_cons_of_not hnext (some o) rest
  | cons line rest ih =>
    rw [List.cons_append, piecesFrom, piecesFrom]
    rw [piecesFrom] at h
    by_cases hcontinues : (pending.isSome && isContinuation line) = true
    · rw [if_pos hcontinues] at h
      rw [if_pos hcontinues, if_pos hcontinues]
      exact ih h
    · rw [if_neg hcontinues] at h
      rw [if_neg hcontinues, if_neg hcontinues, List.append_assoc]
      -- whatever piece the rest ends in, the whole ends in
      cases hoption : option? line with
      | some next =>
        simp only [hoption] at h
        have hrest : piecesFrom (some next) (rest ++ after) =
            piecesFrom (some next) rest ++ pieces after := by
          apply ih
          intro ⟨o, ho⟩
          apply h
          exact ⟨o, by rw [List.getLast?_append, ho]; rfl⟩
        simp only [hrest]
      | none =>
        simp only [hoption] at h
        have hrest : piecesFrom none (rest ++ after) = piecesFrom none rest ++ pieces after := by
          apply ih
          intro ⟨o, ho⟩
          apply h
          exact ⟨o, by rw [List.getLast?_append, List.getLast?_cons, ho]; rfl⟩
        simp only [hrest, List.cons_append]

theorem pieces_append {before after : List (List Char)} (h : ¬ GoesOn before after) :
    pieces (before ++ after) = pieces before ++ pieces after := by
  apply piecesFrom_append
  intro hoption next hnext
  rw [Bool.eq_false_iff]
  intro hcontinues
  exact h ⟨hoption, next, hnext, hcontinues⟩

/-! ## What lines say -/

/-- What lines say in their plain form. -/
def saidBy (lines : List (List Char)) : List Ini.Line := (pieces lines).flatMap Piece.said

theorem said_eq_saidBy (text : List Char) : said text = saidBy (Text.lines text) := by
  rw [said_eq, normalizedLines, normalizeFrom_eq, List.flatMap_map]
  rfl

/-- The document of what is said. -/
def Document.ofSaid (location : String) (lines : List Ini.Line) : Except Failure Document :=
  match (Ini.build lines).bind Ini.nest with
  | .error fault => .error (.malformed fault)
  | .ok tree => (sectionsOf location [] tree).bind (ofSections location)

theorem Document.ofText_eq (location : String) (text : List Char) :
    Document.ofText location text = Document.ofSaid location (said text) := rfl

theorem saidBy_append {before after : List (List Char)} (h : ¬ GoesOn before after) :
    saidBy (before ++ after) = saidBy before ++ saidBy after := by
  rw [saidBy, pieces_append h, List.flatMap_append]
  rfl

/-- Lines that say nothing do not in the plain form either. -/
theorem IsIdle.readLines_eq_nil {line : List Char} (h : IsIdle line) (hline : Text.IsOneLine line) :
    Ini.readLines line = [] := by
  rw [Ini.readLines, Ini.splitLines_of_isOneLine hline, List.filterMap_cons_none h.read?_eq_none]
  rfl

/-- Where nothing is continued, every line is a piece of its own. -/
theorem piecesFrom_of_forall {lines : List (List Char)}
    (h : ∀ line ∈ lines, isContinuation line = false) (pending : Option OptionText) :
    piecesFrom pending lines = pending.toList.map .option ++ lines.map Piece.ofLine := by
  induction lines generalizing pending with
  | nil => simp [piecesFrom]
  | cons line rest ih =>
    have hline : isContinuation line = false := h line List.mem_cons_self
    have hrest := ih fun other hother => h other (List.mem_cons_of_mem line hother)
    rw [piecesFrom_cons_of_not hline, List.map_cons, pieces, piecesFrom, Piece.ofLine]
    cases option? line with
    | none => simp [hrest]
    | some next => simp [hrest]

/-- Where nothing is continued, every line speaks for itself. -/
theorem saidBy_of_forall {lines : List (List Char)}
    (h : ∀ line ∈ lines, isContinuation line = false) :
    saidBy lines = lines.flatMap fun line => (Piece.ofLine line).said := by
  rw [saidBy, pieces, piecesFrom_of_forall h, Option.toList_none, List.map_nil, List.nil_append,
    List.flatMap_map]

/-! ## Lines that are read alike -/

/-- Whether two lines are read alike. -/
structure ReadAlike (line other : List Char) : Prop where
  trim_eq : Text.trim line = Text.trim other
  isContinuation_eq : isContinuation line = isContinuation other
  readLines_eq : Ini.readLines line = Ini.readLines other

theorem ReadAlike.refl (line : List Char) : ReadAlike line line := ⟨rfl, rfl, rfl⟩

theorem ReadAlike.option?_eq {line other : List Char} (h : ReadAlike line other) :
    option? line = option? other := by
  rw [option?, option?, h.trim_eq]

theorem readAlike_dropCarriage (line : List Char) : ReadAlike line (Text.dropCarriage line) := by
  have htrim := Text.trim_dropCarriage line
  refine ⟨htrim.symm, ?_, ?_⟩
  · simp only [isContinuation, htrim]
    by_cases hempty : Text.trim line = []
    · simp [hempty]
    · -- the line does not begin with the carriage return that it ends in
      have hhead : isIndented (Text.dropCarriage line) = isIndented line := by
        unfold Text.dropCarriage
        split
        · rename_i hlast
          obtain ⟨init, rfl⟩ := List.getLast?_eq_some_iff.mp hlast
          cases init with
          | nil => exact absurd (by decide) hempty
          | cons c rest => rw [List.dropLast_concat]; rfl
        · rfl
      rw [hhead]
  · unfold Text.dropCarriage
    split
    · rename_i hlast
      obtain ⟨init, rfl⟩ := List.getLast?_eq_some_iff.mp hlast
      have hsplit : Ini.splitLines (init ++ ['\r']) = Ini.splitLines init ++ [[]] :=
        List.splitOnP_append_cons init [] (by simp)
      rw [List.dropLast_concat, Ini.readLines, hsplit, List.filterMap_append]
      simp [Ini.readLines, Ini.Line.read?, Text.trimStart]
    · rfl

/-- Lines that are read alike say the same. -/
theorem flatMap_said_eq {lines others : List (List Char)} (h : List.Forall₂ ReadAlike lines others)
    (pending : Option OptionText) :
    (piecesFrom pending lines).flatMap Piece.said =
      (piecesFrom pending others).flatMap Piece.said := by
  induction h generalizing pending with
  | nil => rfl
  | @cons line other rest more hline _ ih =>
    rw [piecesFrom, piecesFrom, hline.isContinuation_eq, hline.option?_eq, hline.trim_eq]
    split
    · exact ih _
    · rw [List.flatMap_append, List.flatMap_append]
      cases option? other with
      | some next => rw [ih]
      | none =>
        have hkept : (Piece.kept line).said = (Piece.kept other).said := hline.readLines_eq
        rw [List.flatMap_cons, List.flatMap_cons, hkept, ih]

/-- A text says what the lines of its file say. -/
theorem said_eq_saidBy_fileLines (text : List Char) : said text = saidBy (Text.fileLines text) := by
  obtain ⟨init, last, hlines, hfile⟩ := Text.exists_lines_eq text
  rw [said_eq_saidBy, hlines, hfile]
  split
  · rename_i hlast
    -- an empty line says nothing, and nothing goes on in it
    have hgoesOn : ¬ GoesOn init [last] := by
      rintro ⟨-, next, hnext, hcontinues⟩
      obtain rfl := Option.some.inj hnext
      rw [hlast] at hcontinues
      cases hcontinues
    have hempty : saidBy [[]] = [] := rfl
    rw [saidBy_append hgoesOn, hlast, hempty, List.append_nil, List.append_nil]
  · refine flatMap_said_eq ?_ none
    refine List.rel_append (List.forall₂_same.mpr fun line _ => ReadAlike.refl line) ?_
    exact .cons (readAlike_dropCarriage last) .nil

/-! ## Options among the pieces -/

/-- An option among the pieces begins on a line, and has its name from there. -/
theorem exists_option?_of_mem {pending : Option OptionText} {lines : List (List Char)}
    {o : OptionText} (h : .option o ∈ piecesFrom pending lines) :
    (∃ first ∈ pending, first.key = o.key) ∨
      ∃ line ∈ lines, ∃ first, option? line = some first ∧ first.key = o.key := by
  induction lines generalizing pending with
  | nil =>
    obtain ⟨first, hfirst, heq⟩ := List.mem_map.mp h
    obtain rfl := Piece.option.inj heq
    exact .inl ⟨first, by simpa using hfirst, rfl⟩
  | cons line rest ih =>
    have hlater (hrest : ∃ line ∈ rest, ∃ first, option? line = some first ∧ first.key = o.key) :
        ∃ other ∈ line :: rest, ∃ first, option? other = some first ∧ first.key = o.key := by
      obtain ⟨other, hother, hfirst⟩ := hrest
      exact ⟨other, List.mem_cons_of_mem line hother, hfirst⟩
    rw [piecesFrom] at h
    by_cases hcontinues : (pending.isSome && isContinuation line) = true
    · rw [if_pos hcontinues] at h
      rcases ih h with ⟨first, hfirst, hkey⟩ | hrest
      · obtain ⟨old, hold, rfl⟩ := Option.map_eq_some_iff.mp hfirst
        exact .inl ⟨old, hold, hkey⟩
      · exact .inr (hlater hrest)
    · rw [if_neg hcontinues, List.mem_append] at h
      rcases h with h | h
      · obtain ⟨first, hfirst, heq⟩ := List.mem_map.mp h
        obtain rfl := Piece.option.inj heq
        exact .inl ⟨first, by simpa using hfirst, rfl⟩
      · right
        cases hoption : option? line with
        | some next =>
          simp only [hoption] at h
          rcases ih h with ⟨first, hfirst, hkey⟩ | hrest
          · obtain rfl := Option.some.inj hfirst
            exact ⟨line, List.mem_cons_self, next, hoption, hkey⟩
          · exact hlater hrest
        | none =>
          simp only [hoption, List.mem_cons, reduceCtorEq, false_or] at h
          rcases ih h with ⟨first, hfirst, -⟩ | hrest
          · cases hfirst
          · exact hlater hrest

/-- The name of an option ends before the first delimiter of its line. -/
theorem isDelimiter_of_mem_key {line : List Char} {o : OptionText} (h : option? line = some o) :
    ∀ c ∈ o.key, isDelimiter c = false := by
  intro c hc
  simp only [option?] at h
  split at h
  · cases h
  · unfold splitOption? at h
    split at h
    · cases h
    · dsimp only at h
      split at h
      · cases h
      · obtain rfl := Option.some.inj h
        have hmem := (List.dropWhile_suffix Text.isBlank).subset (List.mem_reverse.mp hc)
        have hall := List.all_eq_true.mp List.all_takeWhile c (List.mem_reverse.mp hmem)
        simpa using hall

end LayeredSettings.Sectioned
