import LayeredSettings.Proofs.Members
import LayeredSettings.Proofs.Setting.Absorption
import LayeredSettings.Proofs.SettingsFile.Loading

/-!
# When a file gives nothing

What a file gives a setting whose variable is not set, case by case: the exact failures, and the
exact reasons for which nothing is found. The texts that fit a type are told apart here from those
that are merely looked up without a failure. At the type of truth values these are two more words,
since the table of truth words has members that every table has.

* `Sectioned.Document.extract_eq_ok_iff` — the values that texts are read as;
* `Setting.resolve_without_variable` — failure and absence over every file.
-/

namespace LayeredSettings

/-! ## Texts of a type -/

/-- A text as it is compared with the words for truth values. -/
def truthWord (raw : String) : String := Text.lowerCase (Text.trimmed raw)

/-- The words that mean true. -/
def yesWords : List String := ["1", "yes", "true", "on"]

/-- The words that mean false. -/
def noWords : List String := ["0", "no", "false", "off"]

/-- The words that are looked up without meaning a truth value, with what is found under them. -/
def tableWords : List (String × Value) :=
  [("constructor", .function "Object"), ("__proto__", .map [])]

/-- The value that a text spells at a type, if it spells one. -/
def ValueType.spelled? : ValueType → String → Option Value
  | string, raw => some (.str raw)
  | list, raw => some (Value.strings (Text.splitAt ',' raw))
  | int, raw => (Number.ofWholeText? raw).map .num
  | bool, raw =>
    if truthWord raw ∈ yesWords then some (.bool true)
    else if truthWord raw ∈ noWords then some (.bool false)
    else none

/-- Whether a text is found in the table of truth words without being one. -/
def ValueType.Misread (type : ValueType) (raw : String) : Prop :=
  type = bool ∧ ∃ v, (truthWord raw, v) ∈ tableWords

theorem ValueType.spelled?_bool_eq_some_iff {raw : String} {v : Value} :
    bool.spelled? raw = some v ↔
      (truthWord raw ∈ yesWords ∧ v = .bool true) ∨
        (truthWord raw ∈ noWords ∧ v = .bool false) := by
  have hdisjoint : ∀ word ∈ yesWords, word ∉ noWords := by decide
  simp only [spelled?]
  split_ifs with hyes hno
  · simp [hyes, hdisjoint _ hyes, eq_comm]
  · simp [hyes, hno, eq_comm]
  · simp [hyes, hno]

/-- What is misread spells nothing. -/
theorem ValueType.Misread.spelled?_eq_none {type : ValueType} {raw : String}
    (h : type.Misread raw) : type.spelled? raw = none := by
  obtain ⟨rfl, v, hv⟩ := h
  have hwords : ∀ entry ∈ tableWords, entry.1 ∉ yesWords ∧ entry.1 ∉ noWords := by decide
  obtain ⟨hyes, hno⟩ := hwords _ hv
  simp [spelled?, hyes, hno]

namespace Sectioned.Document

/-- A word that is looked up means true or false, or is a name that the table has by nature. -/
theorem lookup_truthWords {word : String} {v : Value} :
    truthWords.lookup word = some v ↔
      (word ∈ yesWords ∧ v = .bool true) ∨ (word ∈ noWords ∧ v = .bool false) ∨
        (word, v) ∈ tableWords := by
  have hnames : (Members.names truthWords).Nodup := by decide
  have hlisted : truthWords.lookup word = some v ↔ (word, v) ∈ truthWords :=
    Members.get?_eq_some_iff hnames
  rw [hlisted]
  simp only [truthWords, yesWords, noWords, tableWords, List.mem_cons, Prod.mk.injEq,
    List.not_mem_nil, or_false, or_and_right, or_assoc]

/-- The values that a text is read as: what it spells at the type, and at the type of truth values
what is found under a word that is none. -/
theorem extract_eq_ok_iff {key : OptionKey} {raw : String} {v : Value} :
    extract key raw = .ok v ↔
      key.valueType.spelled? raw = some v ∨
        key.valueType = .bool ∧ (truthWord raw, v) ∈ tableWords := by
  unfold extract
  cases key.valueType with
  | string => simp [ValueType.spelled?]
  | list => simp [ValueType.spelled?]
  | int =>
    cases hwhole : Number.ofWholeText? raw with
    | some n => simp [ValueType.spelled?, hwhole]
    | none => simp [ValueType.spelled?, hwhole]
  | bool =>
    have hlookup := @lookup_truthWords (truthWord raw) v
    rw [ValueType.spelled?_bool_eq_some_iff, or_assoc, and_iff_right rfl, ← hlookup, truthWord]
    cases truthWords.lookup (Text.lowerCase (Text.trimmed raw)) with
    | some found => simp
    | none => simp

/-- Whether a document has no text for a key: there is no section, or an option that neither the
section nor the section of defaults has. -/
def Lacks (d : Document) (key : OptionKey) : Prop :=
  d.sections.get? key.sectionName = none ∨
    ∃ options, d.sections.get? key.sectionName = some options ∧
      options.get? (Text.lowerCase key.option) = none ∧
      d.defaults.get? (Text.lowerCase key.option) = none

theorem raw?_eq_none_iff {d : Document} {key : OptionKey} :
    d.raw? key.sectionName key.option = none ↔ d.Lacks key := by
  unfold raw? Lacks
  cases d.sections.get? key.sectionName with
  | none => simp
  | some options => simp

theorem get_eq_ok_iff {d : Document} {key : OptionKey} {v : Value} :
    d.get key = .ok v ↔
      ∃ raw, d.raw? key.sectionName key.option = some raw ∧ extract key raw = .ok v := by
  unfold get
  cases d.raw? key.sectionName key.option with
  | none => simp
  | some raw => simp

/-- A document fails for a key that it has no text for, and for a text that does not fit the type
and is not found among the truth words either. -/
theorem exists_get_eq_error_iff {d : Document} {key : OptionKey} :
    (∃ failure, d.get key = .error failure) ↔
      d.Lacks key ∨ ∃ raw, d.raw? key.sectionName key.option = some raw ∧
        key.valueType.spelled? raw = none ∧ ¬ key.valueType.Misread raw := by
  rw [← raw?_eq_none_iff, get]
  cases d.raw? key.sectionName key.option with
  | none => simp
  | some raw =>
    have hvalue := fun v => @extract_eq_ok_iff key raw v
    cases hextract : extract key raw with
    | ok v =>
      refine iff_of_false (by simp [hextract]) ?_
      rintro (h | ⟨raw', hraw, hspelled, hmisread⟩)
      · cases h
      · obtain rfl := Option.some.inj hraw
        rcases (hvalue v).mp hextract with hv | ⟨htype, hv⟩
        · rw [hspelled] at hv
          cases hv
        · exact hmisread ⟨htype, v, hv⟩
    | error failure =>
      refine iff_of_true ⟨failure, hextract⟩ (.inr ⟨raw, rfl, ?_, ?_⟩)
      · cases hspelled : key.valueType.spelled? raw with
        | none => rfl
        | some v =>
          rw [(hvalue v).mpr (.inl hspelled)] at hextract
          cases hextract
      · rintro ⟨htype, v, hv⟩
        rw [(hvalue v).mpr (.inr ⟨htype, hv⟩)] at hextract
        cases hextract

end Sectioned.Document

/-! ## Files -/

theorem Resolved.of?_eq_none_iff {layer : Layer} {v : Value} :
    Resolved.of? layer v = none ↔ v.isAbsent = true := by
  unfold Resolved.of?
  cases v.isAbsent with
  | true => simp
  | false => simp

theorem isAbsent_eq_true_iff {v : Value} : v.isAbsent = true ↔ v = .absent := by
  cases v with
  | _ => simp [Value.isAbsent]

/-- Whether a transform makes nothing of a value of a sectioned file: it finds a problem of format,
or gives no value. -/
def Unusable (transform : Option Transform) (files : FileTree) (v : Value) : Prop :=
  (∃ failure, transformed transform files v = .error failure ∧ failure.isFormat = true) ∨
    transformed transform files v = .ok .absent

namespace Setting

/-- What resolving a setting over a file comes to in a world where its variable is not set. -/
structure DecidedByFile (s : Setting) (file : SettingsFile) (w : World) : Prop where
  /-- Only a transform makes a resolution fail, over a sectioned file and with no problem of
  format. -/
  error_iff : ∀ failure, (s.resolve (some file)).outcome w = .error failure ↔
    ∃ document v, file.content = .sectioned document ∧
      (file.get (.option s.option)).outcome w = .ok v ∧
      transformed s.transform w.files v = .error failure ∧ failure.isFormat = false
  /-- Over a YAML file nothing fails. -/
  yaml_isOk : ∀ document, file.content = .yaml document →
    ∃ found, (s.resolve (some file)).outcome w = .ok found
  /-- Over a sectioned file nothing is found if there is no text, if the text does not fit, and if
  the transform makes nothing of the value. -/
  sectioned_eq_none_iff : ∀ document, file.content = .sectioned document →
    ((s.resolve (some file)).outcome w = .ok none ↔
      document.Lacks s.option ∨
      (∃ raw, document.raw? s.option.sectionName s.option.option = some raw ∧
        s.option.valueType.spelled? raw = none ∧ ¬ s.option.valueType.Misread raw) ∨
      ∃ v, document.get s.option = .ok v ∧ Unusable s.transform w.files v)
  /-- A text that is misread gives a value all the same, and none of the type. -/
  misread : ∀ document raw, file.content = .sectioned document →
    document.raw? s.option.sectionName s.option.option = some raw →
    s.option.valueType.Misread raw →
      s.option.valueType.spelled? raw = none ∧ ∃ v, document.get s.option = .ok v
  /-- Over a YAML file with a document nothing is found if the walk is blocked, misses a name or
  ends at a value that counts as false, and if the transform fails or gives no value. -/
  yaml_eq_none_iff : ∀ document key, file.content = .yaml (some document) →
    document.members ≠ [] → s.switch = some key →
    ((s.resolve (some file)).outcome w = .ok none ↔
      (∃ name, document.walk key.path = .blocked name) ∨
      (∃ name, document.walk key.path = .missing name) ∨
      ∃ v, document.walk key.path = .found v ∧
        (v.truthy = false ∨ (∃ failure, transformed s.transform w.files v = .error failure) ∨
          transformed s.transform w.files v = .ok .absent))

section

variable {s : Setting} {file : SettingsFile} {w : World}

/-- Without its variable a setting is decided by the file alone. -/
theorem outcome_resolve_of_unset (hunset : w.environment.get? s.option.variableName = none) :
    (s.resolve (some file)).outcome w = s.inDocument w.files file.content := by
  rw [outcome_resolve, inLayers_of_unset hunset]
  rfl

theorem outcome_get_option {document : Sectioned.Document}
    (hfile : file.content = .sectioned document) (key : OptionKey) :
    (file.get (.option key)).outcome w = document.get key := by
  simp only [SettingsFile.get, hfile]
  exact congrArg Prod.fst (Action.run_ofExcept (document.get key) w)

/-- What a sectioned document gives once it has given a value. -/
theorem inDocument_of_get {files : FileTree} {document : Sectioned.Document} {v : Value}
    (hget : document.get s.option = .ok v) :
    s.inDocument files (.sectioned document) =
      match transformed s.transform files v with
      | .ok v => .ok (Resolved.of? .sectionedFile v)
      | .error failure => if failure.isFormat then .ok none else .error failure := by
  simp only [inDocument, OptionKey.valueInDocument, hget, Except.bind]
  cases transformed s.transform files v with
  | ok v => rfl
  | error failure =>
    simp only
    cases failure.isFormat with
    | true => rfl
    | false => rfl

/-- A sectioned document that fails gives nothing, since it fails only with problems of format. -/
theorem inDocument_of_get_error {files : FileTree} {document : Sectioned.Document}
    {failure : Failure} (hget : document.get s.option = .error failure) :
    s.inDocument files (.sectioned document) = .ok none := by
  have hformat := Sectioned.Document.isFormat_of_get hget
  simp only [inDocument, OptionKey.valueInDocument, hget, Except.bind, hformat, if_true]
  rfl

theorem inDocument_sectioned_eq_error_iff {files : FileTree} {document : Sectioned.Document}
    {failure : Failure} :
    s.inDocument files (.sectioned document) = .error failure ↔
      ∃ v, document.get s.option = .ok v ∧ transformed s.transform files v = .error failure ∧
        failure.isFormat = false := by
  cases hget : document.get s.option with
  | error e => simp [inDocument_of_get_error hget]
  | ok v =>
    rw [inDocument_of_get hget]
    simp only [Except.ok.injEq, exists_eq_left']
    cases transformed s.transform files v with
    | ok found => simp
    | error e =>
      cases hformat : e.isFormat with
      | true =>
        simp only [hformat, if_true]
        refine iff_of_false (by simp) ?_
        rintro ⟨heq, hfailure⟩
        rw [← Except.error.inj heq, hformat] at hfailure
        cases hfailure
      | false =>
        simp only [hformat, Bool.false_eq_true, if_false, Except.error.injEq, iff_self_and]
        rintro rfl
        exact hformat

theorem inDocument_sectioned_eq_none_iff {files : FileTree} {document : Sectioned.Document} :
    s.inDocument files (.sectioned document) = .ok none ↔
      (∃ failure, document.get s.option = .error failure) ∨
        ∃ v, document.get s.option = .ok v ∧ Unusable s.transform files v := by
  cases hget : document.get s.option with
  | error e => simp [inDocument_of_get_error hget]
  | ok v =>
    rw [inDocument_of_get hget]
    simp only [Unusable, Except.ok.injEq, exists_eq_left', reduceCtorEq, exists_false, false_or]
    cases transformed s.transform files v with
    | ok found => simp [Resolved.of?_eq_none_iff, isAbsent_eq_true_iff]
    | error e =>
      cases hformat : e.isFormat with
      | true => simp [hformat]
      | false => simp [hformat]

/-- What a YAML document with members gives a setting with a switch. -/
theorem inDocument_yaml {files : FileTree} {document : Value} {key : SwitchKey}
    (hmembers : document.members ≠ []) (hswitch : s.switch = some key) :
    s.inDocument files (.yaml (some document)) =
      .ok (Resolved.of? .yamlFile (key.valueInDocument s.transform files document)) := by
  simp [inDocument, hswitch, hmembers]

theorem inDocument_yaml_isOk (files : FileTree) (document : Option Value) :
    ∃ found, s.inDocument files (.yaml document) = .ok found := by
  unfold inDocument
  split
  · rename_i heq
    cases heq
  · split
    · split
      · exact ⟨_, rfl⟩
      · exact ⟨_, rfl⟩
    · exact ⟨_, rfl⟩
  · exact ⟨_, rfl⟩

end

end Setting

/-- A switch leads to no value if the walk does not get there, if what it ends at counts as false,
and if the transform fails or gives no value. -/
theorem SwitchKey.valueInDocument_eq_absent_iff {key : SwitchKey} {transform : Option Transform}
    {files : FileTree} {document : Value} :
    key.valueInDocument transform files document = .absent ↔
      (∃ name, document.walk key.path = .blocked name) ∨
      (∃ name, document.walk key.path = .missing name) ∨
      ∃ v, document.walk key.path = .found v ∧
        (v.truthy = false ∨ (∃ failure, transformed transform files v = .error failure) ∨
          transformed transform files v = .ok .absent) := by
  unfold valueInDocument
  cases document.walk key.path with
  | missing name => simp
  | blocked name => simp
  | found v =>
    simp only [reduceCtorEq, exists_false, false_or, Walk.found.injEq, exists_eq_left']
    cases v.truthy with
    | false => simp
    | true =>
      cases transformed transform files v with
      | ok found => simp
      | error failure => simp

namespace Setting

/-- Where the variable of a setting is not set, the file alone decides, in every world and with any
transform. -/
theorem resolve_without_variable (s : Setting) (file : SettingsFile) (w : World)
    (hunset : w.environment.get? s.option.variableName = none) : s.DecidedByFile file w := by
  refine ⟨?_, ?_, ?_, ?_, ?_⟩
  · intro failure
    rw [outcome_resolve_of_unset hunset]
    cases hcontent : file.content with
    | sectioned document =>
      rw [inDocument_sectioned_eq_error_iff]
      simp only [FileContent.sectioned.injEq, exists_and_left, exists_eq_left',
        outcome_get_option hcontent]
    | yaml document =>
      obtain ⟨found, hfound⟩ := inDocument_yaml_isOk (s := s) w.files document
      simp [hfound]
  · intro document hcontent
    rw [outcome_resolve_of_unset hunset, hcontent]
    exact inDocument_yaml_isOk w.files document
  · intro document hcontent
    rw [outcome_resolve_of_unset hunset, hcontent, inDocument_sectioned_eq_none_iff,
      Sectioned.Document.exists_get_eq_error_iff, or_assoc]
  · intro document raw hcontent hraw hmisread
    obtain ⟨htype, v, hv⟩ := id hmisread
    have hextract := Sectioned.Document.extract_eq_ok_iff.mpr (.inr ⟨htype, hv⟩)
    exact ⟨hmisread.spelled?_eq_none, v,
      Sectioned.Document.get_eq_ok_iff.mpr ⟨raw, hraw, hextract⟩⟩
  · intro document key hcontent hmembers hswitch
    rw [outcome_resolve_of_unset hunset, hcontent, inDocument_yaml hmembers hswitch,
      Except.ok.injEq, Resolved.of?_eq_none_iff, isAbsent_eq_true_iff,
      SwitchKey.valueInDocument_eq_absent_iff]

/-- A truth value in a section. -/
def flagKey : OptionKey := ⟨"s", "o", .bool⟩

/-- A document in which the text of the truth value is no truth word. -/
def constructorDocument : Sectioned.Document :=
  { sections := [("s", [("o", "constructor")])], defaults := [] }

/-- A text that spells no truth value is neither absent nor a failure. -/
theorem resolve_constructor :
    (World.ofFile "c" []).environment.get? flagKey.variableName = none ∧
      flagKey.valueType.spelled? "constructor" = none ∧
      ∃ found, ((Setting.of flagKey none none).resolve
        (some (.ofDocument "c" constructorDocument))).outcome (World.ofFile "c" []) =
          .ok (some found) := by
  have hunset : (World.ofFile "c" []).environment.get? flagKey.variableName = none := rfl
  have hword : truthWord "constructor" = "constructor" := by decide +kernel
  have hmisread : flagKey.valueType.Misread "constructor" :=
    ⟨rfl, .function "Object", by rw [hword]; exact List.mem_cons_self⟩
  have hraw : constructorDocument.raw? flagKey.sectionName flagKey.option = some "constructor" := by
    decide +kernel
  have hget (v : Value) : constructorDocument.get flagKey = .ok v → v = .function "Object" := by
    intro h
    obtain ⟨raw, hraw', hextract⟩ := Sectioned.Document.get_eq_ok_iff.mp h
    rw [hraw, Option.some.injEq] at hraw'
    subst hraw'
    rcases Sectioned.Document.extract_eq_ok_iff.mp hextract with hspelled | ⟨-, hv⟩
    · rw [hmisread.spelled?_eq_none] at hspelled
      cases hspelled
    · rw [hword] at hv
      simpa [tableWords] using hv
  have hdecided := resolve_without_variable (Setting.of flagKey none none)
    (.ofDocument "c" constructorDocument) (World.ofFile "c" []) hunset
  refine ⟨hunset, hmisread.spelled?_eq_none, ?_⟩
  -- the transform of truth values passes on what is no text, so nothing is left that could fail
  have hpassed : transformed (Setting.of flagKey none none).transform (World.ofFile "c" []).files
      (.function "Object") = .ok (.function "Object") := rfl
  cases houtcome : ((Setting.of flagKey none none).resolve
      (some (.ofDocument "c" constructorDocument))).outcome (World.ofFile "c" []) with
  | error failure =>
    obtain ⟨document, v, -, hv, hrun, -⟩ := (hdecided.error_iff failure).mp houtcome
    have hcontent : (SettingsFile.ofDocument "c" constructorDocument).content =
        .sectioned constructorDocument := rfl
    rw [outcome_get_option hcontent] at hv
    rw [hget v hv, hpassed] at hrun
    cases hrun
  | ok found =>
    cases found with
    | some found => exact ⟨found, rfl⟩
    | none =>
      rcases (hdecided.sectioned_eq_none_iff _ rfl).mp houtcome with
        hlacks | ⟨raw, hraw', -, hnot⟩ | ⟨v, hv, hunusable⟩
      · have hlacks : constructorDocument.Lacks flagKey := hlacks
        rw [← Sectioned.Document.raw?_eq_none_iff, hraw] at hlacks
        cases hlacks
      · have hraw' : constructorDocument.raw? flagKey.sectionName flagKey.option = some raw := hraw'
        rw [hraw, Option.some.injEq] at hraw'
        exact absurd (hraw' ▸ hmisread) hnot
      · rw [hget v hv, Unusable, hpassed] at hunusable
        rcases hunusable with ⟨failure, hfailure, -⟩ | habsent
        · cases hfailure
        · cases habsent

end Setting

end LayeredSettings
