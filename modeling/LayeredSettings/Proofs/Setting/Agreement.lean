import LayeredSettings.Proofs.Number.Whole
import LayeredSettings.Proofs.Sectioned.RoundTrip
import LayeredSettings.Proofs.Setting.Absence
import Mathlib.Tactic.MkIffOfInductiveProp

/-!
# Variables and sectioned files agree

A text that fits the type of a well-known setting comes to the same value in a variable and in a
sectioned file. From the variable the transform takes it as it is; from the file it comes with its
type already, and the transform passes on what the type has made of it.

* `ValueType.Fits`, `ValueType.Suits` — the texts and the transforms that belong to a type;
* `exists_transformed_of_fits` — a transform that belongs to a type makes one value of a text that
  fits it and of the value that the text is read as;
* `Catalog.suits_transform`, `Catalog.plain_block` — what the listings of the catalogue are like;
* `Catalog.resolve_agrees` — the agreement, for every setting of the catalogue.
-/

namespace LayeredSettings

/-! ## Texts that fit a type -/

/-- Whether a text can stand on the line of an option as it is. -/
structure IsValueLine (raw : String) : Prop where
  trimmed : Text.trim raw.toList = raw.toList
  chars : ∀ c ∈ raw.toList, Text.isLineTerminator c = false

/-- Whether a text is well formed for a type: any text for strings and lists, a finite whole numeral
for whole numbers, one of the eight words in any letter case for truth values. -/
def ValueType.Fits : ValueType → String → Prop
  | string, _ => True
  | list, _ => True
  | int, raw => ∃ sign digits, raw.toList = sign ++ digits ∧ Number.IsSign sign ∧ digits ≠ [] ∧
      (∀ c ∈ digits, Text.isDigit c = true) ∧
      (Number.ofNat (Number.ofDigits 10 digits)).IsFinite
  | bool, raw => Text.lowerCase raw ∈ yesWords ∨ Text.lowerCase raw ∈ noWords

/-- Whether a transform belongs to a type. -/
def ValueType.Suits : ValueType → Option Transform → Prop
  | string, transform => transform = none ∨ transform = some Transform.stripDns ∨
      transform = some Transform.fileText
  | bool, transform => transform = some Transform.bool
  | int, transform => transform = some Transform.int
  | list, transform => transform = some Transform.list

/-! ## One value from a text and from what it is read as -/

/-- The transforms of strings turn texts into texts. -/
theorem exists_transformed_text {transform : Option Transform}
    (hsuits : ValueType.string.Suits transform) (files : FileTree) (raw : String) :
    ∃ text, transformed transform files (.str raw) = .ok (.str text) := by
  obtain rfl | rfl | rfl := hsuits
  · exact ⟨raw, rfl⟩
  · exact ⟨_, rfl⟩
  · simp only [transformed, Transform.fileText]
    cases files.textOf? raw with
    | some text => exact ⟨_, rfl⟩
    | none => exact ⟨raw, rfl⟩

/-- A truth word is no false text if it means true, and is one if it means false. -/
theorem bool_run_str {files : FileTree} {raw : String} :
    (Text.lowerCase raw ∈ yesWords → Transform.bool.run files (.str raw) = .ok (.bool true)) ∧
      (Text.lowerCase raw ∈ noWords → Transform.bool.run files (.str raw) = .ok (.bool false)) := by
  have hyes : ∀ word ∈ yesWords, Transform.falseTexts.contains word = false := by decide
  have hno : ∀ word ∈ noWords, Transform.falseTexts.contains word = true := by decide
  have hempty : Text.lowerCase "" ∉ yesWords := by decide
  refine ⟨fun h => ?_, fun h => ?_⟩
  · have hne : raw ≠ "" := by
      intro heq
      exact hempty (heq ▸ h)
    simp only [Transform.bool, hyes _ h]
    simp [hne]
  · simp only [Transform.bool, hno _ h]
    simp

/-- A transform that belongs to a type makes one value of a text that fits the type and of the value
that the text is read as, and this value is there. -/
theorem exists_transformed_of_fits {type : ValueType} {transform : Option Transform}
    (hsuits : type.Suits transform) {raw : String} (hline : IsValueLine raw)
    (hfits : type.Fits raw) (files : FileTree) :
    ∃ read v, type.spelled? raw = some read ∧ v.isAbsent = false ∧
      transformed transform files (.str raw) = .ok v ∧
      transformed transform files read = .ok v := by
  cases type with
  | string =>
    obtain ⟨text, htext⟩ := exists_transformed_text hsuits files raw
    exact ⟨.str raw, .str text, rfl, rfl, htext, htext⟩
  | list =>
    obtain rfl : transform = some Transform.list := hsuits
    exact ⟨Value.strings (Text.splitAt ',' raw), Value.strings (Text.splitAt ',' raw),
      rfl, rfl, rfl, rfl⟩
  | int =>
    obtain rfl : transform = some Transform.int := hsuits
    obtain ⟨sign, digits, hraw, hsign, hne, hdigits, hfinite⟩ := hfits
    obtain ⟨negative, hread⟩ :=
      Number.ofWholeText?_numeral hline.trimmed hraw hsign hne hdigits
    have hwhole := @Number.isInteger_ofNumeral negative digits hfinite
    refine ⟨.num (Number.ofNumeral negative 10 digits),
      .num (Number.ofNumeral negative 10 digits), ?_, rfl, ?_, ?_⟩
    · rw [ValueType.spelled?, hread, Option.map_some]
    · simp only [transformed, Transform.int, hread]
    · simp only [transformed, Transform.int, hwhole, if_true]
  | bool =>
    obtain rfl : transform = some Transform.bool := hsuits
    have hword : truthWord raw = Text.lowerCase raw := by
      rw [truthWord, Text.trimmed, hline.trimmed, String.ofList_toList]
    obtain hyes | hno := hfits
    · refine ⟨.bool true, .bool true, ?_, rfl, bool_run_str.1 hyes, rfl⟩
      exact ValueType.spelled?_bool_eq_some_iff.mpr (.inl ⟨hword ▸ hyes, rfl⟩)
    · refine ⟨.bool false, .bool false, ?_, rfl, bool_run_str.2 hno, rfl⟩
      exact ValueType.spelled?_bool_eq_some_iff.mpr (.inr ⟨hword ▸ hno, rfl⟩)

/-! ## A file with one option -/

/-- A section with nothing but an option, whose value is on its line. -/
def OptionKey.block (key : OptionKey) (raw : String) : Sectioned.Block :=
  { name := key.sectionName
    entries := [{ key := key.option.toList, first := raw.toList, more := [] }] }

/-- Whether a section and an option of these names are read as they are meant. -/
@[mk_iff]
structure OptionKey.IsPlain (key : OptionKey) : Prop where
  block : (key.block "").Plain
  section_ne : key.sectionName ≠ Sectioned.defaultSection
  section_line : Text.IsOneLine key.sectionName.toList
  option_line : Text.IsOneLine key.option.toList

instance (key : OptionKey) : Decidable key.IsPlain :=
  decidable_of_iff' _ (OptionKey.isPlain_iff key)

/-- Under plain names any value on one line is read as it is meant. -/
theorem OptionKey.IsPlain.plain_block {key : OptionKey} (h : key.IsPlain) {raw : String}
    (hline : IsValueLine raw) : (key.block raw).Plain := by
  have hempty := h.block
  have hentry := hempty.entries_plain _ List.mem_cons_self
  refine ⟨hempty.name_trimmed, hempty.name_chars, hempty.path_parts, hempty.unreserved, ?_,
    hempty.keys_distinct⟩
  intro e he
  obtain rfl := List.mem_singleton.mp he
  refine ⟨hentry.key_trimmed, hentry.key_ne_nil, hentry.key_start, hentry.key_chars,
    hentry.key_unbracketed, hentry.key_unreserved, ?_, ?_, ?_⟩
  · intro line hmem
    obtain rfl := List.mem_singleton.mp hmem
    exact hline.trimmed
  · intro line hmem
    obtain rfl := List.mem_singleton.mp hmem
    exact hline.chars
  · intro line hmem
    cases hmem

section

open Sectioned

variable {key : OptionKey} {raw location : String} {text : List Char} {w : World}

theorem OptionKey.raw?_block {d : Document} (hd : d.IsOf [key.block raw])
    (hname : key.sectionName ≠ defaultSection) :
    d.raw? key.sectionName key.option = some raw := by
  have hanswer := hd.answers (key.block raw) List.mem_cons_self hname key.option
  have hfound : textOf? (key.block raw).entries key.option = some raw := by
    simp [textOf?, OptionKey.block, Entry.name, Entry.text, Entry.value]
  rw [hfound, Option.some_or] at hanswer
  exact hanswer

/-- The two lines of an option in its section. -/
def OptionKey.fileLines (key : OptionKey) (raw : String) : List (List Char) :=
  ['[' :: (key.sectionName.toList ++ [']']), key.option.toList ++ ' ' :: '=' :: ' ' :: raw.toList]

theorem IsValueLine.isOneLine (h : IsValueLine raw) : Text.IsOneLine raw.toList := by
  constructor
  · intro hmem
    exact absurd (h.chars _ hmem) (by decide)
  · intro hmem
    exact absurd (h.chars _ hmem) (by decide)

/-- Two lines with a line feed between them say nothing but an option of plain names. -/
theorem OptionKey.IsPlain.isFileOf (h : key.IsPlain) (hline : IsValueLine raw) :
    IsFileOf [key.block raw] (['\n'].intercalate (key.fileLines raw)) := by
  have hblank : Text.IsPadding [' '] := by decide
  refine ⟨key.fileLines raw, ?_, ?_⟩
  · have hheader : Text.IsOneLine ('[' :: (key.sectionName.toList ++ [']'])) := by
      simp [h.section_line]
    have hoption : Text.IsOneLine (key.option.toList ++ ' ' :: '=' :: ' ' :: raw.toList) := by
      simp [h.option_line, hline.isOneLine]
    have hjoined : ['\n'].intercalate (key.fileLines raw) =
        ('[' :: (key.sectionName.toList ++ [']'])) ++
          '\n' :: (key.option.toList ++ ' ' :: '=' :: ' ' :: raw.toList) := by
      simp [fileLines, List.intercalate]
    rw [hjoined]
    exact .feed hheader (.last hoption)
  · refine .header ⟨[], [], [], Text.isPadding_nil, Text.isPadding_nil, Text.isPadding_nil, ?_⟩ ?_
    · simp [OptionKey.block]
    · refine .single rfl ⟨[' '], '=', [' '], [], hblank, rfl, hblank, Text.isPadding_nil, ?_⟩ .nil
      simp

/-- A file that says nothing but an option of plain names is loaded, and answers with its text. -/
theorem OptionKey.IsPlain.exists_load (h : key.IsPlain) (hline : IsValueLine raw)
    (htext : IsFileOf [key.block raw] text) (hholds : w.Holds location text) :
    ∃ d : Document, (SettingsFile.load location).outcome w =
      .ok (SettingsFile.ofDocument location d) ∧
      d.raw? key.sectionName key.option = some raw := by
  have hplain : PlainBlocks [key.block raw] := by
    refine ⟨?_, List.nodup_singleton _⟩
    intro b hb
    obtain rfl := List.mem_singleton.mp hb
    exact h.plain_block hline
  have hseparate : Separate [key.block raw] := by
    intro b hb c hc _
    rw [List.mem_singleton.mp hb, List.mem_singleton.mp hc]
  obtain ⟨d, hload, hd⟩ :=
    Sectioned.exists_load hplain htext hholds (not_stuck_of_separate hseparate)
  exact ⟨d, congrArg Prod.fst hload, raw?_block (hd.isOf hplain hseparate) h.section_ne⟩

end

/-! ## Agreement -/

/-- A text that fits the type of a setting, with names that can stand in a file and a transform that
belongs to the type, resolves to one value from a variable and from a sectioned file: to what the
transform makes of the text. -/
theorem Setting.exists_resolved {s : Setting} (hplain : s.option.IsPlain)
    (hsuits : s.option.valueType.Suits s.transform) {raw : String} (hline : IsValueLine raw)
    (hfits : s.option.valueType.Fits raw) {w w' : World} (hfiles : w.files = w'.files)
    (hset : w.environment.get? s.option.variableName = some raw)
    (hunset : w'.environment.get? s.option.variableName = none)
    {location : String} {text : List Char} (htext : Sectioned.IsFileOf [s.option.block raw] text)
    (hholds : w'.Holds location text) :
    ∃ file v, (SettingsFile.load location).outcome w' = .ok file ∧
      transformed s.transform w.files (.str raw) = .ok v ∧
      (s.resolve none).outcome w = .ok (some ⟨v, .environment⟩) ∧
      (s.resolve (some file)).outcome w' = .ok (some ⟨v, .sectionedFile⟩) := by
  obtain ⟨read, v, hread, hthere, hvariable, hfile⟩ :=
    exists_transformed_of_fits hsuits hline hfits w.files
  obtain ⟨d, hload, hraw⟩ := hplain.exists_load hline htext hholds
  refine ⟨.ofDocument location d, v, hload, hvariable, ?_, ?_⟩
  · rw [outcome_resolve, inLayers_of_set hset hvariable, hthere]
    rfl
  · have hget : d.get s.option = .ok read :=
      Sectioned.Document.get_eq_ok_iff.mpr
        ⟨raw, hraw, Sectioned.Document.extract_eq_ok_iff.mpr (.inl hread)⟩
    rw [hfiles] at hfile
    have hcontent : (SettingsFile.ofDocument location d).content = .sectioned d := rfl
    rw [outcome_resolve_of_unset hunset, hcontent, inDocument_of_get hget, hfile]
    simp only [Resolved.of?, hthere]
    rfl

namespace Catalog

/-- Every listing has a transform that belongs to its type. -/
theorem suits_transform : ∀ g ∈ groups, ∀ l ∈ g.listings,
    (l.setting g.sectionName).option.valueType.Suits (l.setting g.sectionName).transform := by
  simp [groups, platform, credentials, aws, gcp, localSdk, secrets, statsd, Listing.setting,
    Setting.of, ValueType.usualTransform, ValueType.Suits]

/-- Every listing has plain names. -/
theorem isPlain_option : ∀ g ∈ groups, ∀ l ∈ g.listings,
    (l.setting g.sectionName).option.IsPlain := by
  decide +kernel

/-- A text that fits the type of a well-known setting resolves to what the transform makes of it,
whether a variable holds the text and there is no file, or a sectioned file says it, in any layout,
and the variable is not set. -/
theorem resolve_agrees {g : CatalogGroup} (hg : g ∈ groups) {name : String} {s : Setting}
    (hs : (name, s) ∈ g.settings) {raw : String} (hline : IsValueLine raw)
    (hfits : s.option.valueType.Fits raw) {w w' : World} (hfiles : w.files = w'.files)
    (hset : w.environment.get? s.option.variableName = some raw)
    (hunset : w'.environment.get? s.option.variableName = none)
    {location : String} {text : List Char} (htext : Sectioned.IsFileOf [s.option.block raw] text)
    (hholds : w'.Holds location text) :
    ∃ file v, (SettingsFile.load location).outcome w' = .ok file ∧
      transformed s.transform w.files (.str raw) = .ok v ∧
      (s.resolve none).outcome w = .ok (some ⟨v, .environment⟩) ∧
      (s.resolve (some file)).outcome w' = .ok (some ⟨v, .sectionedFile⟩) := by
  obtain ⟨l, hl, hlisted⟩ := List.mem_map.mp hs
  obtain rfl : l.setting g.sectionName = s := congrArg Prod.snd hlisted
  exact Setting.exists_resolved (isPlain_option g hg l hl) (suits_transform g hg l hl) hline hfits
    hfiles hset hunset htext hholds

/-- A world with a file in which the number of retries is minus zero. -/
def retriesWorld (environment : Environment) : World :=
  { World.ofFile "c" [91, 97, 119, 115, 93, 10, 114, 101, 116, 114, 105, 101, 115, 32, 61, 32, 45,
      48] with environment }

/-- A variable with minus zero for the number of retries. -/
def retriesVariable : Environment := { bindings := [("FLYTE_AWS_RETRIES", "-0")] }

/-- Minus zero retries are the same from the variable and from the file. -/
theorem resolve_retries_agrees :
    aws ∈ groups ∧ ("RETRIES", Setting.of Setting.retriesKey none (some .int)) ∈ aws.settings ∧
    IsValueLine "-0" ∧ Setting.retriesKey.valueType.Fits "-0" ∧
    (retriesWorld retriesVariable).files = (retriesWorld .empty).files ∧
    (retriesWorld retriesVariable).environment.get? Setting.retriesKey.variableName = some "-0" ∧
    (retriesWorld .empty).environment.get? Setting.retriesKey.variableName = none ∧
    Sectioned.IsFileOf [Setting.retriesKey.block "-0"]
      (['\n'].intercalate (Setting.retriesKey.fileLines "-0")) ∧
    (retriesWorld .empty).Holds "c" (['\n'].intercalate (Setting.retriesKey.fileLines "-0")) ∧
    ∃ file v, (SettingsFile.load "c").outcome (retriesWorld .empty) = .ok file ∧
      transformed (some .int) (retriesWorld retriesVariable).files (.str "-0") = .ok v ∧
      ((Setting.of Setting.retriesKey none (some .int)).resolve none).outcome
        (retriesWorld retriesVariable) = .ok (some ⟨v, .environment⟩) ∧
      ((Setting.of Setting.retriesKey none (some .int)).resolve (some file)).outcome
        (retriesWorld .empty) = .ok (some ⟨v, .sectionedFile⟩) := by
  have haws : aws ∈ groups := .tail _ (.tail _ (.head _))
  have hretries : ("RETRIES", Setting.of Setting.retriesKey none (some .int)) ∈ aws.settings :=
    .tail _ (.tail _ (.tail _ (.tail _ (.head _))))
  have hline : IsValueLine "-0" := by
    refine ⟨by decide +kernel, ?_⟩
    simp [Text.isLineTerminator]
  have hfits : Setting.retriesKey.valueType.Fits "-0" :=
    ⟨['-'], ['0'], rfl, .inr (.inr rfl), by simp, by simp [Text.isDigit], trivial⟩
  have hfiles : (retriesWorld retriesVariable).files = (retriesWorld .empty).files := rfl
  have hset : (retriesWorld retriesVariable).environment.get? Setting.retriesKey.variableName =
      some "-0" := by decide +kernel
  have hunset : (retriesWorld .empty).environment.get? Setting.retriesKey.variableName = none := rfl
  have hplain : Setting.retriesKey.IsPlain := by decide +kernel
  have htext := hplain.isFileOf hline
  have hholds : (retriesWorld .empty).Holds "c"
      (['\n'].intercalate (Setting.retriesKey.fileLines "-0")) :=
    ⟨rfl, by decide +kernel, by decide +kernel⟩
  exact ⟨haws, hretries, hline, hfits, hfiles, hset, hunset, htext, hholds,
    resolve_agrees haws hretries hline hfits hfiles hset hunset htext hholds⟩

end Catalog

end LayeredSettings
