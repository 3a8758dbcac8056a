import LayeredSettings.Proofs.Setting.Layering

/-!
# Absorbed failures

Which failures leave the resolution of a setting whose transform, if it has one, comes with the
package. A value that does not fit reads as missing wherever it stands in a file. A variable has no
such protection: a text that is no whole number fails the integer transform, and the failure leaves
the resolution.

* `transformed_eq_error` — of the transforms of the package only the one for integers fails;
* `Document.isFormat_of_get` — a sectioned document fails only with problems of format;
* `Setting.resolve_eq_error_iff` — exactly when a resolution fails, and with what.
-/

namespace LayeredSettings

namespace Transform

/-- The transforms of the package. -/
def own : List Transform := [bool, int, list, stripDns, fileText]

/-- The whole number that a raw value is or spells. -/
def whole? : Value → Option Number
  | .num n => if n.isInteger then some n else none
  | .str s => Number.ofWholeText? s
  | _ => none

theorem int_run (files : FileTree) (v : Value) :
    int.run files v =
      match whole? v with
      | some n => .ok (.num n)
      | none => .error (.ofValue v "integer" none) := rfl

/-- Of the transforms of the package only the one for integers fails, on what is no whole number. -/
theorem own_run_eq_error {t : Transform} (ht : t ∈ own) {files : FileTree} {v : Value}
    {failure : Failure} (h : t.run files v = .error failure) :
    t = int ∧ whole? v = none ∧ failure = .ofValue v "integer" none := by
  -- the others give a value for every raw value
  simp only [own, List.mem_cons, List.not_mem_nil, or_false] at ht
  rcases ht with rfl | rfl | rfl | rfl | rfl
  · cases v <;> cases h
  · rw [int_run] at h
    cases hwhole : whole? v with
    | some n => rw [hwhole] at h; cases h
    | none =>
      rw [hwhole] at h
      exact ⟨rfl, rfl, (Except.error.inj h).symm⟩
  · cases v <;> cases h
  · cases v <;> cases h
  · cases v with
    | str s =>
      simp only [fileText] at h
      split at h <;> cases h
    | _ => cases h

end Transform

/-- The transforms that a setting can have without one from outside: none, or one of the package. -/
def IsOwn (transform : Option Transform) : Prop := ∀ t, transform = some t → t ∈ Transform.own

theorem IsOwn.or_usualTransform {transform : Option Transform} (h : IsOwn transform)
    (type : ValueType) : IsOwn (transform.or type.usualTransform) := by
  cases transform with
  | some t => exact h
  | none =>
    intro t ht
    cases type with
    | bool =>
      obtain rfl := Option.some.inj ht
      simp [Transform.own]
    | string | int | list => cases ht

/-- Only integers fail, and never for want of a transform. -/
theorem transformed_eq_error {transform : Option Transform} (hown : IsOwn transform)
    {files : FileTree} {v : Value} {failure : Failure}
    (h : transformed transform files v = .error failure) :
    transform = some .int ∧ Transform.whole? v = none ∧
      failure = .ofValue v "integer" none := by
  cases transform with
  | none => cases h
  | some t =>
    obtain ⟨rfl, hwhole, hfailure⟩ := Transform.own_run_eq_error (hown t rfl) h
    exact ⟨rfl, hwhole, hfailure⟩

/-- The default transform of a type is never the one for integers. -/
theorem or_usualTransform_eq_int {transform : Option Transform} {type : ValueType}
    (h : transform.or type.usualTransform = some .int) : transform = some .int := by
  cases transform with
  | some t => exact h
  | none =>
    cases type with
    | bool => exact absurd (congrArg (Option.map (·.name)) h) (by decide)
    | string | int | list => cases h

/-! ## Documents -/

/-- A sectioned document fails only with problems of format. -/
theorem Sectioned.Document.isFormat_of_get {document : Sectioned.Document} {key : OptionKey}
    {failure : Failure} (h : document.get key = .error failure) : failure.isFormat = true := by
  unfold get at h
  split at h
  · unfold extract at h
    split at h
    · cases h
    · cases h
    · split at h
      · cases h
      · obtain rfl := Except.error.inj h
        rfl
    · split at h
      · cases h
      · obtain rfl := Except.error.inj h
        rfl
  · obtain rfl := Except.error.inj h
    rfl

/-- What a truth word stands for has an end. -/
theorem Sectioned.Document.isEndless_of_truthWords :
    ∀ entry ∈ truthWords, entry.2.isEndless = false := by
  decide

/-- The values of a sectioned document have an end. -/
theorem Sectioned.Document.isEndless_of_get {document : Sectioned.Document} {key : OptionKey}
    {v : Value} (h : document.get key = .ok v) : v.isEndless = false := by
  unfold get at h
  split at h
  · unfold extract at h
    split at h
    · obtain rfl := Except.ok.inj h
      rfl
    · obtain rfl := Except.ok.inj h
      rw [Value.strings, Value.isEndless_list_eq_false_iff, List.forall_mem_map]
      intro piece _
      rfl
    · split at h
      · obtain rfl := Except.ok.inj h
        rfl
      · cases h
    · split at h
      · rename_i word hword
        obtain rfl := Except.ok.inj h
        exact isEndless_of_truthWords _ (Members.mem_of_get? hword)
      · cases h
  · cases h

/-- Whatever fails in a sectioned document or after it reads as a missing value. -/
theorem OptionKey.valueInDocument_of_error {key : OptionKey} {transform : Option Transform}
    (hown : IsOwn transform) {files : FileTree} {document : Sectioned.Document} {failure : Failure}
    (h : (document.get key).bind (transformed transform files) = .error failure) :
    key.valueInDocument transform files document = .ok .absent := by
  have hformat : failure.isFormat = true := by
    cases hget : document.get key with
    | error e =>
      rw [hget] at h
      obtain rfl := Except.error.inj h
      exact Sectioned.Document.isFormat_of_get hget
    | ok v =>
      rw [hget] at h
      obtain ⟨-, -, rfl⟩ := transformed_eq_error hown h
      rw [Failure.ofValue, Sectioned.Document.isEndless_of_get hget]
      rfl
  simp only [valueInDocument, h, hformat, if_true]

/-- A sectioned document always gives a key a value, be it an absent one. -/
theorem OptionKey.valueInDocument_isOk {key : OptionKey} {transform : Option Transform}
    (hown : IsOwn transform) (files : FileTree) (document : Sectioned.Document) :
    ∃ v, key.valueInDocument transform files document = .ok v := by
  cases h : (document.get key).bind (transformed transform files) with
  | ok v => exact ⟨v, by simp only [valueInDocument, h]⟩
  | error failure => exact ⟨.absent, valueInDocument_of_error hown h⟩

namespace Setting

/-- No file makes a resolution fail. -/
theorem inFile_isOk {s : Setting} (hown : IsOwn s.transform) (files : FileTree)
    (file : Option SettingsFile) : ∃ found, s.inFile files file = .ok found := by
  cases file with
  | none => exact ⟨none, rfl⟩
  | some f =>
    rcases hcontent : f.content with document | (_ | document)
    · obtain ⟨v, hv⟩ := s.option.valueInDocument_isOk hown files document
      exact ⟨Resolved.of? .sectionedFile v, by simp only [inFile, inDocument, hcontent, hv]; rfl⟩
    · exact ⟨none, by simp only [inFile, inDocument, hcontent]⟩
    · simp only [inFile, inDocument, hcontent]
      -- a switch never fails: its failures were caught where it was read
      split
      · split
        · exact ⟨_, rfl⟩
        · exact ⟨_, rfl⟩
      · exact ⟨_, rfl⟩

/-- A resolution fails exactly when the variable does not pass the transform. -/
theorem inLayers_eq_error_iff {s : Setting} (hown : IsOwn s.transform) {w : World}
    {file : Option SettingsFile} {failure : Failure} :
    s.inLayers w file = .error failure ↔
      ∃ raw, w.environment.get? s.option.variableName = some raw ∧
        transformed s.transform w.files (.str raw) = .error failure := by
  obtain ⟨found, hfound⟩ := inFile_isOk hown w.files file
  cases hset : w.environment.get? s.option.variableName with
  | none => simp [inLayers_of_unset hset, hfound]
  | some raw =>
    cases hv : transformed s.transform w.files (.str raw) with
    | ok v =>
      rw [inLayers_of_set hset hv, hfound]
      constructor
      · intro h
        split at h <;> cases h
      · rintro ⟨raw', hraw, h⟩
        obtain rfl := Option.some.inj hraw
        rw [hv] at h
        cases h
    | error e =>
      rw [inLayers, OptionKey.valueInEnvironment, hset]
      simp [hv]

/-- What a document holds is no reason to fail: if it does not fit, nothing is found. -/
theorem inFile_of_sectioned_error {s : Setting} (hown : IsOwn s.transform) {files : FileTree}
    {f : SettingsFile} {document : Sectioned.Document} {failure : Failure}
    (hcontent : f.content = .sectioned document)
    (h : (document.get s.option).bind (transformed s.transform files) = .error failure) :
    s.inFile files (some f) = .ok none := by
  simp only [inFile, inDocument, hcontent, OptionKey.valueInDocument_of_error hown h]
  rfl

theorem inFile_of_yaml_error {s : Setting} {files : FileTree} {f : SettingsFile}
    {document v : Value} {key : SwitchKey} {failure : Failure}
    (hcontent : f.content = .yaml (some document)) (hswitch : s.switch = some key)
    (hwalk : document.walk key.path = .found v)
    (h : transformed s.transform files v = .error failure) :
    s.inFile files (some f) = .ok none := by
  have habsent : key.valueInDocument s.transform files document = .absent := by
    simp only [SwitchKey.valueInDocument, hwalk, h, ite_self]
  simp only [inFile, inDocument, hcontent, hswitch, habsent]
  split <;> rfl

/-- A variable whose text is no whole number, read by a setting with the integer transform. The
failure is the one of a value of the wrong type. -/
def VariableMisfits (key : OptionKey) (transform : Option Transform) (w : World)
    (failure : Failure) : Prop :=
  transform = some .int ∧ ∃ raw, w.environment.get? key.variableName = some raw ∧
    Number.ofWholeText? raw = none ∧ failure = .of (.value (.str raw) "integer" none)

theorem inLayers_of_eq_error_iff {key : OptionKey} {switch : Option SwitchKey}
    {transform : Option Transform} (hown : IsOwn transform) {w : World}
    {file : Option SettingsFile} {failure : Failure} :
    (Setting.of key switch transform).inLayers w file = .error failure ↔
      VariableMisfits key transform w failure := by
  have hown' : IsOwn (Setting.of key switch transform).transform :=
    hown.or_usualTransform key.valueType
  rw [inLayers_eq_error_iff hown']
  constructor
  · rintro ⟨raw, hset, h⟩
    obtain ⟨hint, hwhole, hfailure⟩ := transformed_eq_error hown' h
    exact ⟨or_usualTransform_eq_int hint, raw, hset, hwhole, hfailure⟩
  · rintro ⟨rfl, raw, hset, hwhole, rfl⟩
    refine ⟨raw, hset, ?_⟩
    change Transform.int.run w.files (.str raw) = _
    rw [Transform.int_run, show Transform.whole? (.str raw) = none from hwhole]
    rfl

/-- With a transform of the package or none, resolving and reading fail exactly when an integer
setting's variable is no whole number, over every file. What a file holds never fails: a problem in
a sectioned document, or of the transform after it, and a failed transform of what a switch leads
to, read as nothing. -/
theorem resolve_eq_error_iff (key : OptionKey) (switch : Option SwitchKey)
    {transform : Option Transform} (hown : IsOwn transform) (file : Option SettingsFile)
    (w : World) :
    (∀ failure, ((Setting.of key switch transform).resolve file).outcome w = .error failure ↔
      VariableMisfits key transform w failure) ∧
    (∀ failure, ((Setting.of key switch transform).read file).outcome w = .error failure ↔
      VariableMisfits key transform w failure) ∧
    (w.environment.get? key.variableName = none → ∀ f, file = some f →
      (∀ document failure, f.content = .sectioned document →
        (document.get key).bind
          (transformed (Setting.of key switch transform).transform w.files) = .error failure →
        ((Setting.of key switch transform).resolve file).outcome w = .ok none) ∧
      (∀ document switchKey v failure, f.content = .yaml (some document) →
        switch = some switchKey → document.walk switchKey.path = .found v →
        transformed (Setting.of key switch transform).transform w.files v = .error failure →
        ((Setting.of key switch transform).resolve file).outcome w = .ok none)) := by
  have hown' : IsOwn (Setting.of key switch transform).transform :=
    hown.or_usualTransform key.valueType
  refine ⟨?_, ?_, ?_⟩
  · intro failure
    rw [outcome_resolve, inLayers_of_eq_error_iff hown]
  · intro failure
    have hlayers := @inLayers_of_eq_error_iff key switch transform hown w file failure
    rw [outcome_read, ← hlayers]
    cases (Setting.of key switch transform).inLayers w file with
    | error e => simp [Except.map]
    | ok found => simp [Except.map]
  · intro hunset f hf
    subst hf
    rw [outcome_resolve,
      inLayers_of_unset (s := Setting.of key switch transform) hunset]
    refine ⟨?_, ?_⟩
    · intro document failure hcontent h
      exact inFile_of_sectioned_error hown' hcontent h
    · intro document switchKey v failure hcontent hswitch hwalk h
      exact inFile_of_yaml_error hcontent hswitch hwalk h

/-- A world with one variable and no files. -/
def worldWith (name raw : String) : World :=
  { environment := { bindings := [(name, raw)] }, files := .empty [], logger := none, records := []
    accountHome := "/" }

/-- The number of retries, a setting with the integer transform. -/
def retriesKey : OptionKey := ⟨"aws", "retries", .int⟩

/-- A variable that says `ten` makes reading the number of retries fail. -/
theorem resolve_retries_ten :
    IsOwn (some Transform.int) ∧
    ((Setting.of retriesKey none (some .int)).resolve none).outcome
        (worldWith "FLYTE_AWS_RETRIES" "ten") =
      .error (.of (.value (.str "ten") "integer" none)) := by
  have hown : IsOwn (some Transform.int) := by
    rintro t ⟨⟩
    simp [Transform.own]
  have hname : retriesKey.variableName = "FLYTE_AWS_RETRIES" := by decide +kernel
  have hset : (worldWith "FLYTE_AWS_RETRIES" "ten").environment.get? retriesKey.variableName =
      some "ten" := by
    rw [hname]
    decide +kernel
  have hten : Number.ofWholeText? "ten" = none := by decide +kernel
  have hmisfits : VariableMisfits retriesKey (some .int) (worldWith "FLYTE_AWS_RETRIES" "ten")
      (.of (.value (.str "ten") "integer" none)) := ⟨rfl, "ten", hset, hten, rfl⟩
  refine ⟨hown, ?_⟩
  exact ((resolve_eq_error_iff retriesKey none hown none
    (worldWith "FLYTE_AWS_RETRIES" "ten")).1 _).mpr hmisfits

end Setting

end LayeredSettings
