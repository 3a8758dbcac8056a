import LayeredSettings.Proofs.SettingsFile.Lookup
import LayeredSettings.Proofs.Text.Word

/-!
# Reading truth values

What a sectioned file answers when one of its options is asked for as a truth value. Four words mean
true and four mean false; they may stand in white space and in any letter case. Every other text is
refused, with the exception of two words that are found in the table of truth words because they
name members that every table has.

* `Text.lowerCase_trimmed_eq_iff`, `truthWord_eq_iff` — the texts that spell a word;
* `SettingsFile.load_tellsTruth` — the answer for every text of a loaded file.
-/

namespace LayeredSettings

/-! ## Words -/

/-- All words that are found in the table of truth words. -/
def knownWords : List String := yesWords ++ noWords ++ tableWords.map (·.1)

theorem isWordChar_of_mem_knownWords {word : String} (h : word ∈ knownWords) :
    ∀ c ∈ word.toList, Text.isWordChar c = true := by
  have hall : (knownWords.all fun word => word.toList.all Text.isWordChar) = true := by
    decide +kernel
  exact List.all_eq_true.mp (List.all_eq_true.mp hall word h)

/-- A text is compared as a known word exactly if it spells this word. -/
theorem truthWord_eq_iff {raw word : String} (h : word ∈ knownWords) :
    truthWord raw = word ↔ Text.Spells raw word :=
  Text.lowerCase_trimmed_eq_iff (isWordChar_of_mem_knownWords h)

/-- The known words are those that are found in the table. -/
theorem mem_knownWords_iff {word : String} :
    word ∈ knownWords ↔ ∃ v, Sectioned.Document.truthWords.lookup word = some v := by
  have htable : (∃ v, (word, v) ∈ tableWords) ↔ word ∈ tableWords.map (·.1) := by
    constructor
    · intro ⟨v, hv⟩
      exact List.mem_map.mpr ⟨(word, v), hv, rfl⟩
    · intro h
      obtain ⟨entry, hentry, rfl⟩ := List.mem_map.mp h
      exact ⟨entry.2, hentry⟩
  simp only [Sectioned.Document.lookup_truthWords, knownWords, List.mem_append, ← htable, exists_or,
    exists_and_left, exists_eq, and_true, or_assoc]

namespace Sectioned.Document

variable {name option raw : String}

/-- The failure of a text that is no truth value. -/
def untrue (name option raw : String) : Failure :=
  .of (.value (.str raw) "boolean" (some [("section", .str name), ("option", .str option)]))

/-- A text that is not found among the truth words is refused, whatever it is. -/
theorem extract_bool_eq_error_iff {failure : Failure} :
    extract ⟨name, option, .bool⟩ raw = .error failure ↔
      truthWord raw ∉ knownWords ∧ failure = untrue name option raw := by
  rw [mem_knownWords_iff, truthWord]
  unfold extract
  dsimp only
  cases truthWords.lookup (Text.lowerCase (Text.trimmed raw)) with
  | some v => simp
  | none => simp [untrue, eq_comm]

end Sectioned.Document

/-! ## Files -/

namespace SettingsFile

/-- What a file answers for an option with the text `raw` when it is asked for a truth value. -/
structure TellsTruth (file : SettingsFile) (name option raw : String) : Prop where
  /-- True, exactly for the four words that mean it. -/
  eq_true_iff : ∀ w, file.readAs .bool name option w = .ok (.bool true) ↔ truthWord raw ∈ yesWords
  /-- False, exactly for the four words that mean it. -/
  eq_false_iff : ∀ w, file.readAs .bool name option w = .ok (.bool false) ↔ truthWord raw ∈ noWords
  /-- Something else, exactly for the words that name members of every table. -/
  eq_other_iff : ∀ w v, (∀ b, v ≠ .bool b) →
    (file.readAs .bool name option w = .ok v ↔ (truthWord raw, v) ∈ tableWords)
  /-- A failure, which tells text and place, exactly for all other texts. -/
  eq_error_iff : ∀ w failure, file.readAs .bool name option w = .error failure ↔
    truthWord raw ∉ knownWords ∧ failure = Sectioned.Document.untrue name option raw
  /-- The texts of a word: white space, its letters in any case, white space. -/
  spelled : ∀ word ∈ knownWords, truthWord raw = word ↔ Text.Spells raw word

/-- A sectioned file that was loaded answers for each of its texts in the same way. -/
theorem load_tellsTruth {w w' : World} {location name option raw : String} {file : SettingsFile}
    (hformat : formatOf location = .sectioned) (hload : (load location).outcome w = .ok file)
    (hraw : file.readAs .string name option w' = .ok (.str raw)) :
    file.TellsTruth name option raw := by
  rw [outcome_load hformat] at hload
  obtain ⟨d, -, rfl⟩ := map_eq_ok hload
  have hcontent : (ofDocument location d).content = .sectioned d := rfl
  rw [readAs_string_eq_ok_iff hcontent] at hraw
  -- in every world the answer is what the text is read as
  have hread (w : World) : (ofDocument location d).readAs .bool name option w =
      Sectioned.Document.extract ⟨name, option, .bool⟩ raw := by
    rw [readAs_eq hcontent, Sectioned.Document.get, hraw]
  have hok (v : Value) : Sectioned.Document.extract ⟨name, option, .bool⟩ raw = .ok v ↔
      (truthWord raw ∈ yesWords ∧ v = .bool true) ∨ (truthWord raw ∈ noWords ∧ v = .bool false) ∨
        (truthWord raw, v) ∈ tableWords := by
    rw [Sectioned.Document.extract_eq_ok_iff, ValueType.spelled?_bool_eq_some_iff, or_assoc,
      and_iff_right rfl]
  have htable (b : Bool) (word : String) : (word, Value.bool b) ∉ tableWords := by
    simp [tableWords]
  refine ⟨?_, ?_, ?_, ?_, ?_⟩
  · intro w
    rw [hread, hok]
    simp [htable]
  · intro w
    rw [hread, hok]
    simp [htable]
  · intro w v hv
    rw [hread, hok]
    simp [hv]
  · intro w failure
    rw [hread, Sectioned.Document.extract_bool_eq_error_iff]
  · intro word hword
    exact truthWord_eq_iff hword

/-- A file with a text that is no truth value but names a member of every table. -/
def memberText : List Char :=
  ['[', 's', ']', '\n', 'o', '=', 'C', 'o', 'n', 's', 't', 'r', 'u', 'c', 't', 'o', 'r']

/-- A world with this file. -/
def memberWorld : World :=
  .ofFile "c" [91, 115, 93, 10, 111, 61, 67, 111, 110, 115, 116, 114, 117, 99, 116, 111, 114]

/-- The document of the file. -/
def memberDocument : Sectioned.Document :=
  { sections := [("s", [("o", "Constructor")])], defaults := [] }

theorem ofText_memberText : Sectioned.Document.ofText "c" memberText = .ok memberDocument := by
  have htree : Ini.decode (Sectioned.normalize memberText) =
      .ok [("s", .object false [("o", .text "Constructor")])] := by
    with_unfolding_all rfl
  have hlower : Text.lowerCase "o" = "o" := by decide +kernel
  rw [Sectioned.Document.ofText, htree]
  simp only [Sectioned.Document.sectionsOf, Sectioned.addSection, Sectioned.gather,
    Ini.Node.optionText, Ini.Node.text?, hlower, Except.map, Except.bind]
  rfl

/-- The file is loaded, and its text is read as what every table has under this name. -/
theorem load_memberText :
    formatOf "c" = .sectioned ∧
      (load "c").outcome memberWorld = .ok (ofDocument "c" memberDocument) ∧
      (ofDocument "c" memberDocument).readAs .string "s" "o" memberWorld =
        .ok (.str "Constructor") ∧
      (ofDocument "c" memberDocument).TellsTruth "s" "o" "Constructor" ∧
      (ofDocument "c" memberDocument).readAs .bool "s" "o" memberWorld =
        .ok (.function "Object") := by
  have hformat : formatOf "c" = .sectioned := rfl
  have htext : memberWorld.textAt "c" = memberText := by decide +kernel
  have hload : (load "c").outcome memberWorld = .ok (ofDocument "c" memberDocument) := by
    rw [outcome_load hformat, htext, ofText_memberText]
    rfl
  have hraw : (ofDocument "c" memberDocument).readAs .string "s" "o" memberWorld =
      .ok (.str "Constructor") := by
    have hstored : memberDocument.raw? "s" "o" = some "Constructor" := by decide +kernel
    exact (readAs_string_eq_ok_iff rfl).mpr hstored
  have htells := load_tellsTruth hformat hload hraw
  have hword : truthWord "Constructor" = "constructor" := by decide +kernel
  refine ⟨hformat, hload, hraw, htells, ?_⟩
  rw [htells.eq_other_iff memberWorld (.function "Object") (fun b h => by cases h), hword]
  exact List.mem_cons_self

end SettingsFile

end LayeredSettings
