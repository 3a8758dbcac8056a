import LayeredSettings.Proofs.Sectioned.Pieces
import LayeredSettings.Proofs.SettingsFile.Loading

/-!
# Comments between the lines of a file

A line that is a comment says nothing, and closes the option above it. Wherever one is put between
the lines of a file, the two parts of the file say what they say on their own, so a comment matters
only where it cuts the value of an option in two.

* `IsCommentLine`, `saidBy_commented` — comments, and what lines with one among them say;
* `Inserts`, `Inserts.between`, `Inserts.last` — two files one of which has a comment more;
* `load_commented` — what the longer file is read as.
-/

namespace LayeredSettings.Sectioned

/-! ## Comments -/

/-- Whether a line is a comment, which may be indented. -/
def IsCommentLine (line : List Char) : Prop :=
  Text.IsOneLine line ∧ ∃ blanks sign rest, Text.IsPadding blanks ∧ (sign = '#' ∨ sign = ';') ∧
    line = blanks ++ sign :: rest

theorem IsCommentLine.isIdle {line : List Char} (h : IsCommentLine line) : IsIdle line := by
  obtain ⟨-, blanks, sign, rest, hblanks, hsign, rfl⟩ := h
  have hsolid : Text.isBlank sign = false := by
    rcases hsign with rfl | rfl
    · decide
    · decide
  right
  rw [isComment, Text.head?_trim, Text.trimStart_append_cons hblanks hsolid]
  rcases hsign with rfl | rfl
  · rfl
  · rfl

theorem IsCommentLine.ne_nil {line : List Char} (h : IsCommentLine line) : line ≠ [] := by
  obtain ⟨-, blanks, sign, rest, -, -, rfl⟩ := h
  simp

/-- A comment separates what stands before it from what comes after it, and adds nothing. -/
theorem saidBy_commented {comment : List Char} (h : IsCommentLine comment)
    (before after : List (List Char)) :
    saidBy (before ++ comment :: after) = saidBy before ++ saidBy after := by
  have hidle := h.isIdle
  have hgoesOn : ¬ GoesOn before (comment :: after) := by
    rintro ⟨-, next, hnext, hcontinues⟩
    obtain rfl := Option.some.inj hnext
    rw [hidle.isContinuation_eq_false] at hcontinues
    cases hcontinues
  have hpieces : pieces (comment :: after) = .kept comment :: pieces after := by
    rw [pieces, piecesFrom, hidle.isContinuation_eq_false, hidle.option?_eq_none]
    rfl
  have hsilent : (Piece.kept comment).said = [] := hidle.readLines_eq_nil h.1
  rw [saidBy_append hgoesOn]
  show saidBy before ++ (pieces (comment :: after)).flatMap Piece.said = _
  rw [hpieces, List.flatMap_cons, hsilent]
  rfl

/-! ## Files with one comment more -/

/-- Whether the second of two texts is the first one with a comment between two parts of its lines,
either of which may be empty. -/
structure Inserts (comment : List Char) (before after : List (List Char))
    (text longer : List Char) : Prop where
  lines_eq : Text.fileLines text = before ++ after
  longer_eq : Text.fileLines longer = before ++ comment :: after

/-- A comment can be put wherever a line can begin. -/
theorem Inserts.between {comment before : List Char} (hcomment : IsCommentLine comment)
    (hbefore : Text.IsClosed before) {ending : List Char}
    (hending : ending = ['\n'] ∨ ending = ['\r', '\n']) (after : List Char) :
    Inserts comment (Text.fileLines before) (Text.fileLines after) (before ++ after)
      (before ++ comment ++ ending ++ after) := by
  have hclosed : Text.IsClosed (comment ++ ending) := by
    rcases hending with rfl | rfl
    · exact .inr ⟨comment, rfl⟩
    · exact .inr ⟨comment ++ ['\r'], by simp⟩
  have hline : Text.fileLines (comment ++ ending) = [comment] := by
    rcases hending with rfl | rfl
    · rw [Text.fileLines_append_feed, List.splitOn_eq_singleton hcomment.1.1]
      simp [Text.fileLines, Text.dropCarriage_of_isOneLine hcomment.1]
    · have hfeed : '\n' ∉ comment ++ ['\r'] := by simp [hcomment.1.1]
      have hassoc : comment ++ ['\r', '\n'] = comment ++ ['\r'] ++ '\n' :: [] := by simp
      rw [hassoc, Text.fileLines_append_feed, List.splitOn_eq_singleton hfeed]
      simp [Text.fileLines, Text.dropCarriage_append]
  refine ⟨hbefore.fileLines_append after, ?_⟩
  rw [List.append_assoc, List.append_assoc, hbefore.fileLines_append, ← List.append_assoc,
    hclosed.fileLines_append, hline]
  rfl

/-- A comment can be put at the end of a file. A last line without a line feed is given one. -/
theorem Inserts.last {comment text gap : List Char} (hcomment : IsCommentLine comment)
    (hgap : (Text.IsClosed text ∧ gap = []) ∨ (¬ Text.IsClosed text ∧ gap = ['\n'])) :
    Inserts comment (Text.fileLines text) [] text (text ++ gap ++ comment) := by
  have hline := Text.fileLines_of_isOneLine hcomment.1 hcomment.ne_nil
  refine ⟨(List.append_nil _).symm, ?_⟩
  rcases hgap with ⟨hclosed, rfl⟩ | ⟨hopen, rfl⟩
  · rw [List.append_nil, hclosed.fileLines_append, hline]
  · have hlast : (text.splitOn '\n').getLast? ≠ some [] :=
      fun hlast => hopen (Text.isClosed_of_getLast? hlast)
    rw [List.append_assoc, List.singleton_append, Text.fileLines_append_feed, hline]
    simp [Text.fileLines, hlast]

/-! ## What the longer file is read as -/

theorem Inserts.said_eq {comment text longer : List Char} {before after : List (List Char)}
    (hcomment : IsCommentLine comment) (h : Inserts comment before after text longer) :
    said longer = saidBy before ++ saidBy after := by
  rw [said_eq_saidBy_fileLines, h.longer_eq, saidBy_commented hcomment]

/-- A file with a comment more is read as its two parts, one after the other. Unless a value goes on
from one part to the other, so is the file without the comment. -/
theorem load_commented {w w' : World} {location : String} {comment text longer : List Char}
    {before after : List (List Char)} (hcomment : IsCommentLine comment)
    (hinserts : Inserts comment before after text longer) (hholds : w.Holds location text)
    (hholds' : w'.Holds location longer) :
    (SettingsFile.load location).outcome w' =
        (Document.ofSaid location (saidBy before ++ saidBy after)).map
          (SettingsFile.ofDocument location) ∧
      (¬ GoesOn before after →
        (SettingsFile.load location).outcome w' = (SettingsFile.load location).outcome w) := by
  have hlonger : (SettingsFile.load location).outcome w' =
      (Document.ofSaid location (saidBy before ++ saidBy after)).map
        (SettingsFile.ofDocument location) := by
    rw [SettingsFile.outcome_load_of_holds hholds', Document.ofText_eq, hinserts.said_eq hcomment]
  refine ⟨hlonger, ?_⟩
  intro hgoesOn
  rw [hlonger, SettingsFile.outcome_load_of_holds hholds, Document.ofText_eq,
    said_eq_saidBy_fileLines, hinserts.lines_eq, saidBy_append hgoesOn]

/-- A file with a value of two lines, in its two parts. -/
def upperPart : List Char := ['[', 's', ']', '\n', 'a', '=', '1', '\n']

@[inherit_doc upperPart]
def lowerPart : List Char := [' ', '2', '\n']

/-- A world with this file, and one in which a comment stands between its parts. -/
def wholeWorld : World := .ofFile "c" [91, 115, 93, 10, 97, 61, 49, 10, 32, 50, 10]

@[inherit_doc wholeWorld]
def partedWorld : World := .ofFile "c" [91, 115, 93, 10, 97, 61, 49, 10, 35, 10, 32, 50, 10]

theorem ofSaid_whole :
    Document.ofSaid "c" [.header (.str "s"), .option (.str "a") (.str "1\n2")] =
      .ok { sections := [("s", [("a", "1\n2")])], defaults := [] } := by
  have htree : (Ini.build [.header (.str "s"), .option (.str "a") (.str "1\n2")]).bind Ini.nest =
      .ok [("s", .object false [("a", .text "1\n2")])] := by
    with_unfolding_all rfl
  have hlower : Text.lowerCase "a" = "a" := by decide +kernel
  rw [Document.ofSaid, htree]
  simp only [Document.sectionsOf, addSection, gather, Ini.Node.optionText, Ini.Node.text?, hlower,
    Except.map, Except.bind]
  rfl

theorem ofSaid_parted :
    Document.ofSaid "c" [.header (.str "s"), .option (.str "a") (.str "1"),
        .option (.str "2") (.bool true)] =
      .ok { sections := [("s", [("2", "true"), ("a", "1")])], defaults := [] } := by
  have htree : (Ini.build [.header (.str "s"), .option (.str "a") (.str "1"),
      .option (.str "2") (.bool true)]).bind Ini.nest =
      .ok [("s", .object false [("2", .flag true), ("a", .text "1")])] := by
    with_unfolding_all rfl
  have hlower : Text.lowerCase "a" = "a" ∧ Text.lowerCase "2" = "2" := by decide +kernel
  rw [Document.ofSaid, htree]
  simp only [Document.sectionsOf, addSection, gather, Ini.Node.optionText, Ini.Node.text?, hlower,
    Except.map, Except.bind, if_true]
  rfl

/-- A comment between the two lines of a value leaves the first one only, and makes an option of the
second one. -/
theorem load_partedWorld :
    IsCommentLine ['#'] ∧
    Inserts ['#'] (Text.fileLines upperPart) (Text.fileLines lowerPart) (upperPart ++ lowerPart)
      (upperPart ++ ['#'] ++ ['\n'] ++ lowerPart) ∧
    wholeWorld.Holds "c" (upperPart ++ lowerPart) ∧
    partedWorld.Holds "c" (upperPart ++ ['#'] ++ ['\n'] ++ lowerPart) ∧
    (SettingsFile.load "c").outcome wholeWorld = .ok (.ofDocument "c"
      { sections := [("s", [("a", "1\n2")])], defaults := [] }) ∧
    (SettingsFile.load "c").outcome partedWorld = .ok (.ofDocument "c"
      { sections := [("s", [("2", "true"), ("a", "1")])], defaults := [] }) := by
  have hcomment : IsCommentLine ['#'] :=
    ⟨by decide, [], '#', [], Text.isPadding_nil, .inl rfl, rfl⟩
  have hclosed : Text.IsClosed upperPart := .inr (by decide)
  have hinserts := Inserts.between hcomment hclosed (.inl rfl) lowerPart
  have hholds : wholeWorld.Holds "c" (upperPart ++ lowerPart) :=
    ⟨rfl, by decide +kernel, by decide +kernel⟩
  have hholds' : partedWorld.Holds "c" (upperPart ++ ['#'] ++ ['\n'] ++ lowerPart) :=
    ⟨rfl, by decide +kernel, by decide +kernel⟩
  refine ⟨hcomment, hinserts, hholds, hholds', ?_, ?_⟩
  · have hsaid : said (upperPart ++ lowerPart) =
        [.header (.str "s"), .option (.str "a") (.str "1\n2")] := by
      with_unfolding_all rfl
    rw [SettingsFile.outcome_load_of_holds hholds, Document.ofText_eq, hsaid, ofSaid_whole]
    rfl
  · have hsaid : saidBy (Text.fileLines upperPart) ++ saidBy (Text.fileLines lowerPart) =
        [.header (.str "s"), .option (.str "a") (.str "1"), .option (.str "2") (.bool true)] := by
      with_unfolding_all rfl
    rw [(load_commented hcomment hinserts hholds hholds').1, hsaid, ofSaid_parted]
    rfl

end LayeredSettings.Sectioned
