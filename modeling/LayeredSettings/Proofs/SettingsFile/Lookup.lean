import LayeredSettings.Proofs.Sectioned.Gathering
import LayeredSettings.Proofs.Setting.Absence
import LayeredSettings.Proofs.Text.Case

/-!
# Looking up options

Whatever text a sectioned file holds, once it is loaded its options can be looked up: every option
stands under its name in lower case, so that each spelling of the name finds it, and nothing that
all sections have can hide it. The types that an option is read at differ only in what they make of
its text.

* `AreLowered`, `lowered_of_gather` — the names under which the options of a tree are stored;
* `Document.Canonical`, `canonical_of_ofText` — what holds of the document of any text;
* `SettingsFile.LooksUp`, `load_looksUp` — how a file that was loaded answers.
-/

namespace LayeredSettings

namespace Sectioned

/-- Whether options stand under names in lower case. -/
def AreLowered (options : Options) : Prop :=
  ∀ name ∈ options.names, Text.lowerCase name = name

/-- Whether the options of all sections stand under names in lower case. -/
def Sections.AreLowered (sections : Sections) : Prop :=
  ∀ name options, sections.get? name = some options → Sectioned.AreLowered options

theorem AreLowered.lowerCase_eq {options : Options} (h : AreLowered options) {option raw : String}
    (hget : options.get? option = some raw) : Text.lowerCase option = option := by
  have hhas : options.has option = true := by
    rw [Members.has_eq_isSome, hget, Option.isSome_some]
  exact h option (Members.has_eq_true_iff.mp hhas)

theorem areLowered_nil : AreLowered [] := fun _ h => absurd h List.not_mem_nil

theorem AreLowered.set {options : Options} (h : AreLowered options) (key value : String) :
    AreLowered (options.set (Text.lowerCase key) value) := by
  intro name hname
  rw [← Members.has_eq_true_iff, Members.has_set, Bool.or_eq_true, beq_iff_eq,
    Members.has_eq_true_iff] at hname
  rcases hname with rfl | hname
  · exact Text.lowerCase_lowerCase key
  · exact h name hname

theorem Sections.AreLowered.set {sections : Sections} (h : sections.AreLowered) (name : String)
    {options : Options} (hoptions : Sectioned.AreLowered options) :
    Sections.AreLowered (sections.set name options) := by
  intro other found hfound
  rw [Members.get?_set] at hfound
  split at hfound
  · obtain rfl := Option.some.inj hfound
    exact hoptions
  · exact h other found hfound

theorem Sections.AreLowered.erase {sections : Sections} (h : sections.AreLowered) (name : String) :
    Sections.AreLowered (sections.erase name) := by
  intro other found hfound
  rw [Members.get?_erase] at hfound
  split at hfound
  · cases hfound
  · exact h other found hfound

theorem Gathered.lowered_close {g : Gathered} (hsections : g.sections.AreLowered)
    (hoptions : AreLowered g.options) (name : String) : (g.close name).AreLowered := by
  rw [close]
  split
  · exact hsections
  · exact hsections.set name hoptions

/-- Gathering the members of a node stores every option under its name in lower case. -/
theorem lowered_of_gather {name : String} {g gathered : Gathered}
    {members : List (String × Ini.Node)} (h : gather name g members = .ok gathered)
    (hsections : g.sections.AreLowered) (hoptions : AreLowered g.options) :
    gathered.sections.AreLowered ∧ AreLowered gathered.options := by
  fun_induction gather name g members generalizing gathered with
  | case1 name g =>
    obtain rfl := Except.ok.inj h
    exact ⟨hsections, hoptions⟩
  | case2 name g key ordinary members rest below hbelow ihBelow ih =>
    -- what is below starts with no options of its own
    obtain ⟨hinner, hown⟩ := ihBelow hbelow hsections areLowered_nil
    exact ih h (Gathered.lowered_close hinner hown _) hoptions
  | case3 => cases h
  | case4 name g key node rest hleaf value hvalue ih =>
    exact ih h hsections (hoptions.set key value)
  | case5 => cases h

namespace Document

theorem lowered_of_sectionsOf {location : String} {sections result : Sections}
    {tree : List (String × Ini.Node)} (h : sectionsOf location sections tree = .ok result)
    (hsections : sections.AreLowered) : result.AreLowered := by
  fun_induction sectionsOf location sections tree with
  | case1 sections =>
    obtain rfl := Except.ok.inj h
    exact hsections
  | case2 sections name ordinary members rest next hnext ih =>
    obtain ⟨gathered, hgather, rfl⟩ := map_eq_ok hnext
    obtain ⟨hall, hown⟩ := lowered_of_gather hgather hsections areLowered_nil
    exact ih h (Gathered.lowered_close hall hown name)
  | case3 => cases h
  | case4 => cases h

/-- What holds of the document of any text: two sections are never among the others, and all names
of options are in lower case. -/
structure Canonical (d : Document) : Prop where
  not_reserved : d.sections.get? reservedSection = none
  not_default : d.sections.get? defaultSection = none
  sections_lowered : d.sections.AreLowered
  defaults_lowered : AreLowered d.defaults

theorem canonical_of_ofSections {location : String} {sections : Sections} {d : Document}
    (h : ofSections location sections = .ok d) (hsections : sections.AreLowered) :
    d.Canonical := by
  unfold ofSections at h
  split at h
  · cases h
  · rename_i hreserved
    obtain rfl := Except.ok.inj h
    have habsent : sections.get? reservedSection = none := by
      simpa [Members.has_eq_isSome] using hreserved
    refine ⟨?_, ?_, hsections.erase defaultSection, ?_⟩
    · show Members.get? (Members.erase sections defaultSection) reservedSection = none
      rw [Members.get?_erase, habsent, ite_self]
    · show Members.get? (Members.erase sections defaultSection) defaultSection = none
      rw [Members.get?_erase, if_pos rfl]
    · show AreLowered ((sections.get? defaultSection).getD [])
      cases hdefault : sections.get? defaultSection with
      | none => exact areLowered_nil
      | some options => exact hsections defaultSection options hdefault

/-- Every text that has a document at all has a canonical one. -/
theorem canonical_of_ofText {location : String} {text : List Char} {d : Document}
    (h : ofText location text = .ok d) : d.Canonical := by
  unfold ofText at h
  split at h
  · cases h
  · obtain ⟨sections, hsections, hdocument⟩ := bind_eq_ok h
    have hnone : Sections.AreLowered [] := by
      intro name options hget
      cases hget
    exact canonical_of_ofSections hdocument (lowered_of_sectionsOf hsections hnone)

/-! ## Reading -/

variable {d : Document} {name option : String}

/-- An option of a section is its own text, whatever all sections have under its name. -/
theorem raw?_of_stored {options : Options} {raw spelling : String}
    (hsection : d.sections.get? name = some options) (hraw : options.get? option = some raw)
    (hspelling : Text.lowerCase spelling = option) : d.raw? name spelling = some raw := by
  rw [raw?, hsection, Option.bind_some, hspelling, hraw, Option.some_or]

/-- A document without a section has no option of it. -/
theorem get_of_no_section {key : OptionKey} (h : d.sections.get? key.sectionName = none) :
    d.get key = .error (.of (.lookup key.sectionName key.option)) := by
  have hraw : d.raw? key.sectionName key.option = none := raw?_eq_none_iff.mpr (.inl h)
  rw [get, hraw]

/-- A text that does not fit a type is no missing text. -/
theorem kind_of_extract {key : OptionKey} {raw : String} {failure : Failure}
    (h : extract key raw = .error failure) : failure.kind = "ConfigValueError" := by
  unfold extract at h
  split at h
  · cases h
  · cases h
  · split at h
    · cases h
    · obtain rfl := Except.error.inj h
      rfl
  · split at h
    · cases h
    · obtain rfl := Except.error.inj h
      rfl

/-- At whatever type an option is read, it is missing exactly if it is missing as a text. -/
theorem get_missing_iff {type : ValueType} {failure : Failure} :
    d.get ⟨name, option, type⟩ = .error failure ∧ failure.kind = "ConfigLookupError" ↔
      d.get ⟨name, option, .string⟩ = .error failure := by
  unfold get
  simp only
  cases d.raw? name option with
  | none =>
    simp only [Except.error.injEq, and_iff_left_iff_imp]
    rintro rfl
    rfl
  | some raw =>
    refine iff_of_false ?_ (by simp [extract])
    rintro ⟨hextract, hkind⟩
    rw [kind_of_extract hextract] at hkind
    exact absurd hkind (by decide)

end Document

end Sectioned

namespace SettingsFile

/-- What a file gives for an option that is read at a type. -/
def readAs (file : SettingsFile) (type : ValueType) (name option : String) (w : World) :
    Except Failure Value :=
  (file.get (.option ⟨name, option, type⟩)).outcome w

/-- How a file with a sectioned document answers. -/
structure LooksUp (file : SettingsFile) (d : Sectioned.Document) : Prop where
  content : file.content = .sectioned d
  /-- Two sections are not there. -/
  no_section : ∀ name, name = Sectioned.reservedSection ∨ name = Sectioned.defaultSection →
    d.sections.get? name = none
  /-- The file gives nothing to the settings of these sections. -/
  no_setting : ∀ (s : Setting) (w : World), s.option.sectionName = Sectioned.reservedSection ∨
    s.option.sectionName = Sectioned.defaultSection →
      w.environment.get? s.option.variableName = none →
        (s.resolve (some file)).outcome w = .ok none
  /-- The name of a stored option is its own lower case form. -/
  lowered : ∀ name options option raw, d.sections.get? name = some options →
    options.get? option = some raw → Text.lowerCase option = option
  /-- So is the name of an option that all sections have. -/
  lowered_defaults : ∀ option raw, d.defaults.get? option = some raw →
    Text.lowerCase option = option
  /-- A stored option is found under every spelling of its name, itself among them. -/
  found : ∀ name options option raw, d.sections.get? name = some options →
    options.get? option = some raw → ∀ spelling, Text.lowerCase spelling = option →
      ∀ w, file.readAs .string name spelling w = .ok (.str raw)
  /-- It would be found with the same text if all sections had other options. -/
  found_over : ∀ name options option raw, d.sections.get? name = some options →
    options.get? option = some raw → ∀ spelling, Text.lowerCase spelling = option →
      ∀ (defaults : Sectioned.Options) (w : World),
        (ofDocument file.location { d with defaults }).readAs .string name spelling w =
          .ok (.str raw)
  /-- As a text an option is there or missing. -/
  text_or_missing : ∀ name option w, (∃ raw, file.readAs .string name option w = .ok (.str raw)) ∨
    file.readAs .string name option w = .error (.of (.lookup name option))
  /-- As a list it is the pieces of its text between commas. -/
  as_list : ∀ name option w raw, file.readAs .string name option w = .ok (.str raw) →
    file.readAs .list name option w = .ok (Value.strings (Text.splitAt ',' raw))
  /-- As a whole number it is the number that its text spells, or does not fit. -/
  as_int : ∀ name option w raw, file.readAs .string name option w = .ok (.str raw) →
    file.readAs .int name option w = match Number.ofWholeText? raw with
      | some n => .ok (.num n)
      | none => .error (.of (.value (.str raw) "integer"
          (some [("section", .str name), ("option", .str option)])))
  /-- At every type it is missing if and only if it is missing as a text. -/
  missing_iff : ∀ type name option w failure,
    file.readAs type name option w = .error failure ∧ failure.kind = "ConfigLookupError" ↔
      file.readAs .string name option w = .error failure

theorem readAs_eq {file : SettingsFile} {d : Sectioned.Document}
    (hfile : file.content = .sectioned d) (type : ValueType) (name option : String) (w : World) :
    file.readAs type name option w = d.get ⟨name, option, type⟩ :=
  Setting.outcome_get_option hfile _

/-- A text is read as it is. -/
theorem readAs_string_eq_ok_iff {file : SettingsFile} {d : Sectioned.Document}
    (hfile : file.content = .sectioned d) {name option raw : String} {w : World} :
    file.readAs .string name option w = .ok (.str raw) ↔ d.raw? name option = some raw := by
  rw [readAs_eq hfile, Sectioned.Document.get_eq_ok_iff]
  simp [Sectioned.Document.extract]

/-- A sectioned file that was loaded looks its options up by their names. -/
theorem load_looksUp {w : World} {location : String} {file : SettingsFile}
    (hformat : formatOf location = .sectioned) (hload : (load location).outcome w = .ok file) :
    ∃ d, file.LooksUp d := by
  rw [outcome_load hformat] at hload
  obtain ⟨d, hd, rfl⟩ := map_eq_ok hload
  have hcanonical := Sectioned.Document.canonical_of_ofText hd
  have hcontent : (ofDocument location d).content = .sectioned d := rfl
  have hnone : ∀ name, name = Sectioned.reservedSection ∨ name = Sectioned.defaultSection →
      d.sections.get? name = none := by
    rintro name (rfl | rfl)
    · exact hcanonical.not_reserved
    · exact hcanonical.not_default
  refine ⟨d, hcontent, hnone, ?_, ?_, ?_, ?_, ?_, ?_, ?_, ?_, ?_⟩
  · intro s w hname hunset
    rw [Setting.outcome_resolve_of_unset hunset, hcontent]
    exact Setting.inDocument_of_get_error (Sectioned.Document.get_of_no_section (hnone _ hname))
  · intro name options option raw hsection hraw
    exact (hcanonical.sections_lowered name options hsection).lowerCase_eq hraw
  · intro option raw hraw
    exact hcanonical.defaults_lowered.lowerCase_eq hraw
  · intro name options option raw hsection hraw spelling hspelling w
    rw [readAs_string_eq_ok_iff hcontent]
    exact Sectioned.Document.raw?_of_stored hsection hraw hspelling
  · intro name options option raw hsection hraw spelling hspelling defaults w
    have hover : (ofDocument location { d with defaults }).content =
        .sectioned { d with defaults } := rfl
    show (ofDocument location { d with defaults }).readAs .string name spelling w = _
    rw [readAs_string_eq_ok_iff hover]
    exact Sectioned.Document.raw?_of_stored (d := { d with defaults }) hsection hraw hspelling
  · intro name option w
    simp only [readAs_eq hcontent, Sectioned.Document.get]
    cases d.raw? name option with
    | none => exact .inr rfl
    | some raw => exact .inl ⟨raw, rfl⟩
  · intro name option w raw hread
    have hraw := (readAs_string_eq_ok_iff hcontent).mp hread
    rw [readAs_eq hcontent, Sectioned.Document.get, hraw]
    rfl
  · intro name option w raw hread
    have hraw := (readAs_string_eq_ok_iff hcontent).mp hread
    rw [readAs_eq hcontent, Sectioned.Document.get, hraw]
    rfl
  · intro type name option w failure
    rw [readAs_eq hcontent, readAs_eq hcontent]
    exact Sectioned.Document.get_missing_iff

/-- A file whose one section has an empty option. Its name ends in a capital sigma, and all sections
have an option of that name in lower case. -/
def sigmaText : List Char :=
  ['[', 's', ']', '\n', 'Α', 'Σ', '=', '\n', '[', 'D', 'E', 'F', 'A', 'U', 'L', 'T', ']', '\n',
    'α', 'ς', '=', 'x']

/-- A world with this file. -/
def sigmaWorld : World :=
  .ofFile "c" [91, 115, 93, 10, 206, 145, 206, 163, 61, 10, 91, 68, 69, 70, 65, 85, 76, 84, 93, 10,
    206, 177, 207, 130, 61, 120]

/-- The document of the file. -/
def sigmaDocument : Sectioned.Document :=
  { sections := [("s", [("ας", "")])], defaults := [("ας", "x")] }

theorem ofText_sigmaText : Sectioned.Document.ofText "c" sigmaText = .ok sigmaDocument := by
  have htree : Ini.decode (Sectioned.normalize sigmaText) =
      .ok [("s", .object false [("ΑΣ", .text "")]),
        ("DEFAULT", .object false [("ας", .text "x")])] := by
    with_unfolding_all rfl
  have hlower : Text.lowerCase "ΑΣ" = "ας" ∧ Text.lowerCase "ας" = "ας" := by decide +kernel
  rw [Sectioned.Document.ofText, htree]
  simp only [Sectioned.Document.sectionsOf, Sectioned.addSection, Sectioned.gather,
    Ini.Node.optionText, Ini.Node.text?, hlower, Except.map, Except.bind]
  rfl

/-- The file is loaded, and the option of the section is found under the name that the file has for
it. -/
theorem load_sigmaText :
    formatOf "c" = .sectioned ∧
      (load "c").outcome sigmaWorld = .ok (ofDocument "c" sigmaDocument) ∧
      (ofDocument "c" sigmaDocument).LooksUp sigmaDocument ∧
      (ofDocument "c" sigmaDocument).readAs .string "s" "ΑΣ" sigmaWorld = .ok (.str "") := by
  have hformat : formatOf "c" = .sectioned := rfl
  have htext : sigmaWorld.textAt "c" = sigmaText := by decide +kernel
  have hload : (load "c").outcome sigmaWorld = .ok (ofDocument "c" sigmaDocument) := by
    rw [outcome_load hformat, htext, ofText_sigmaText]
    rfl
  obtain ⟨d, hlooks⟩ := load_looksUp hformat hload
  obtain rfl : sigmaDocument = d := FileContent.sectioned.inj hlooks.content
  have hlower : Text.lowerCase "ΑΣ" = "ας" := by decide +kernel
  exact ⟨hformat, hload, hlooks,
    hlooks.found "s" [("ας", "")] "ας" "" rfl rfl "ΑΣ" hlower sigmaWorld⟩

end SettingsFile

end LayeredSettings
