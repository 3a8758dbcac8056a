import LayeredSettings.Proofs.SettingsFile.Switch
import LayeredSettings.Setting.Resolution

/-!
# Layering

What resolving a setting gives in a world, as a function of three things only: the setting's
variable, the files that its transform may look at, and the document of the file. The records that
are logged on the way play no part.

* `Setting.outcome_resolve` — the value of the variable comes first; only where it is absent, the
  document decides;
* `Setting.outcome_read` — reading gives the value that resolving finds;
* `Setting.resolve_layered` — what the layers may depend on, for all settings, worlds and files.
-/

namespace LayeredSettings

/-- A raw value after a transform, if there is one. -/
def transformed (transform : Option Transform) (files : FileTree) (v : Value) :
    Except Failure Value :=
  match transform with
  | some t => t.run files v
  | none => .ok v

theorem run_applyTransform (transform : Option Transform) (v : Value) (w : World) :
    (applyTransform transform v).run w = (transformed transform w.files v, w) := by
  cases transform with
  | none => rfl
  | some t => exact Action.run_ofExcept (t.run w.files v) w

/-! ## The layers -/

/-- The value that a variable gives a key. -/
def OptionKey.valueInEnvironment (key : OptionKey) (transform : Option Transform) (w : World) :
    Except Failure Value :=
  match w.environment.get? key.variableName with
  | some raw => transformed transform w.files (.str raw)
  | none => .ok .absent

/-- The value that a document gives a key. Problems of format read as a missing value. -/
def OptionKey.valueInDocument (key : OptionKey) (transform : Option Transform) (files : FileTree)
    (document : Sectioned.Document) : Except Failure Value :=
  match (document.get key).bind (transformed transform files) with
  | .ok v => .ok v
  | .error failure => if failure.isFormat then .ok .absent else .error failure

/-- The value that a YAML document gives a switch. Every failure reads as a missing value. -/
def SwitchKey.valueInDocument (key : SwitchKey) (transform : Option Transform) (files : FileTree)
    (document : Value) : Value :=
  match document.walk key.path with
  | .found v =>
    if v.truthy then
      match transformed transform files v with
      | .ok v => v
      | .error _ => .absent
    else .absent
  | .missing _ | .blocked _ => .absent

theorem OptionKey.run_readFromEnvironment (key : OptionKey) (transform : Option Transform)
    (w : World) :
    (key.readFromEnvironment transform).run w = (key.valueInEnvironment transform w, w) := by
  rw [readFromEnvironment, Action.run_get_bind, valueInEnvironment]
  cases w.environment.get? key.variableName with
  | none => rfl
  | some raw => exact run_applyTransform transform (.str raw) w

/-- A sectioned file is read without a trace. -/
theorem OptionKey.run_readFromFile (key : OptionKey) (file : SettingsFile)
    (transform : Option Transform) (document : Sectioned.Document)
    (hfile : file.content = .sectioned document) (w : World) :
    (key.readFromFile file transform).run w =
      (key.valueInDocument transform w.files document, w) := by
  have hget : (file.get (.option key)).run w = (document.get key, w) := by
    simp only [SettingsFile.get, hfile]
    exact Action.run_ofExcept (document.get key) w
  rw [readFromFile, Action.run_tryCatch, Action.run_bind, hget, valueInDocument]
  cases document.get key with
  | error failure =>
    simp only [Except.bind]
    split <;> rfl
  | ok v =>
    simp only [Except.bind, run_applyTransform]
    cases transformed transform w.files v with
    | error failure =>
      simp only
      split <;> rfl
    | ok v => rfl

/-- A failure to read a switch is logged and reads as a missing value. To log it does not fail. -/
theorem SwitchKey.outcome_excused (read : Action Value) (message : String) (w : World) :
    (tryCatch read fun failure => do
        Action.log "debug" message (some [("error", .str failure.text)])
        return .absent : Action Value).outcome w =
      .ok (match read.outcome w with
        | .ok v => v
        | .error _ => .absent) := by
  rw [Action.outcome, Action.outcome, Action.run_tryCatch]
  rcases read.run w with ⟨failure | v, left⟩
  · dsimp only
    rw [Action.run_bind, Action.run_log_of_hasEnd (Log.Logger.hasEnd_text "error" failure.text)]
    rfl
  · rfl

/-- A switch is read with a result in any case; all that changes is what has been logged. -/
theorem SwitchKey.outcome_readFromFile (key : SwitchKey) (file : SettingsFile)
    (transform : Option Transform) (document : Value)
    (hfile : file.content = .yaml (some document)) (w : World) :
    (key.readFromFile file transform).outcome w =
      .ok (key.valueInDocument transform w.files document) := by
  rw [readFromFile, outcome_excused, Action.outcome, Action.run_bind,
    SettingsFile.reports_get_switch hfile w, valueInDocument]
  cases document.walk key.path with
  | found v =>
    simp only [SettingsFile.endCalls, Log.Logger.refusalAmong?_nil, SettingsFile.reply]
    cases v.truthy with
    | false => rfl
    | true =>
      simp only [if_true, run_applyTransform]
      rfl
  | missing name =>
    -- the report may fail, which is a missing value as well
    cases w.currentLogger.refusalAmong? (SettingsFile.endCalls file.location key.switch document
      (.missing name)) with
    | some failure => rfl
    | none => rfl
  | blocked name => rfl

namespace Setting

/-- What a document gives a setting. An empty YAML document counts as none, and so does one that
the setting has no switch for. -/
def inDocument (s : Setting) (files : FileTree) : FileContent → Except Failure (Option Resolved)
  | .sectioned document =>
    (s.option.valueInDocument s.transform files document).map (Resolved.of? .sectionedFile)
  | .yaml (some document) =>
    match s.switch with
    | some key =>
      if document.members.isEmpty then .ok none
      else .ok (Resolved.of? .yamlFile (key.valueInDocument s.transform files document))
    | none => .ok none
  | .yaml none => .ok none

/-- What a file, if there is one, gives a setting. -/
def inFile (s : Setting) (files : FileTree) (file : Option SettingsFile) :
    Except Failure (Option Resolved) :=
  match file with
  | some file => s.inDocument files file.content
  | none => .ok none

/-- What the variable gives a setting, and what a file gives it where the variable gives nothing. -/
def inLayers (s : Setting) (w : World) (file : Option SettingsFile) :
    Except Failure (Option Resolved) :=
  match s.option.valueInEnvironment s.transform w with
  | .error failure => .error failure
  | .ok v =>
    match Resolved.of? .environment v with
    | some resolved => .ok (some resolved)
    | none => s.inFile w.files file

theorem outcome_resolveInFile (s : Setting) (file : SettingsFile) (w : World) :
    (s.resolveInFile file).outcome w = s.inDocument w.files file.content := by
  rw [resolveInFile]
  cases hcontent : file.content with
  | sectioned document =>
    simp only [Action.outcome, Action.run_bind, inDocument,
      OptionKey.run_readFromFile s.option file s.transform document hcontent]
    cases s.option.valueInDocument s.transform w.files document with
    | error failure => rfl
    | ok v => rfl
  | yaml document =>
    cases document with
    | none => rfl
    | some document =>
      simp only [inDocument]
      cases s.switch with
      | none => rfl
      | some key =>
        simp only
        split
        · rfl
        · -- reading the switch may log, so only its outcome is known
          have hread := key.outcome_readFromFile file s.transform document hcontent w
          rw [Action.outcome] at hread ⊢
          rw [Action.run_bind]
          rcases hrun : (key.readFromFile file s.transform).run w with ⟨result, w'⟩
          rw [hrun] at hread
          subst hread
          rfl

/-- Resolving a setting gives what its layers give. -/
theorem outcome_resolve (s : Setting) (file : Option SettingsFile) (w : World) :
    (s.resolve file).outcome w = s.inLayers w file := by
  unfold resolve inLayers
  rw [Action.outcome, Action.run_bind, OptionKey.run_readFromEnvironment]
  cases s.option.valueInEnvironment s.transform w with
  | error failure => rfl
  | ok v =>
    simp only
    cases Resolved.of? .environment v with
    | some resolved => rfl
    | none =>
      cases file with
      | none => rfl
      | some file => exact s.outcome_resolveInFile file w

/-- Reading a setting gives the value that resolving it finds. -/
theorem outcome_read (s : Setting) (file : Option SettingsFile) (w : World) :
    (s.read file).outcome w =
      (s.inLayers w file).map fun found => (found.map (·.value)).getD .absent := by
  rw [← outcome_resolve, Action.outcome, Action.outcome, read, Action.run_bind]
  rcases (s.resolve file).run w with ⟨failure | found, w'⟩
  · rfl
  · cases found with
    | none => rfl
    | some resolved => rfl

/-! ## Dependence -/

theorem valueInEnvironment_of_unset {key : OptionKey} {transform : Option Transform} {w : World}
    (hunset : w.environment.get? key.variableName = none) :
    key.valueInEnvironment transform w = .ok .absent := by
  rw [OptionKey.valueInEnvironment, hunset]

/-- Without the variable only the file counts. -/
theorem inLayers_of_unset {s : Setting} {w : World}
    (hunset : w.environment.get? s.option.variableName = none) (file : Option SettingsFile) :
    s.inLayers w file = s.inFile w.files file := by
  rw [inLayers, valueInEnvironment_of_unset hunset]
  rfl

/-- A value that is there comes from the variable, whatever the file holds. -/
theorem inLayers_of_set {s : Setting} {w : World} {raw : String} {v : Value}
    (hset : w.environment.get? s.option.variableName = some raw)
    (hv : transformed s.transform w.files (.str raw) = .ok v) (file : Option SettingsFile) :
    s.inLayers w file =
      if v.isAbsent then s.inFile w.files file else .ok (some ⟨v, .environment⟩) := by
  rw [inLayers, OptionKey.valueInEnvironment, hset]
  simp only [hv, Resolved.of?]
  cases v.isAbsent with
  | true => rfl
  | false => rfl

/-- Below a variable that gives nothing, the two kinds of documents look at different parts of a
setting: a sectioned one not at the switch, a YAML one not at the option. -/
theorem inFile_switch {s : Setting} {file : SettingsFile} {document : Sectioned.Document}
    (hfile : file.content = .sectioned document) (files : FileTree) (switch : Option SwitchKey) :
    { s with switch }.inFile files (some file) = s.inFile files (some file) := by
  simp only [inFile, inDocument, hfile]

theorem inFile_option {s : Setting} {file : SettingsFile} {document : Option Value}
    (hfile : file.content = .yaml document) (files : FileTree) (option : OptionKey) :
    { s with option }.inFile files (some file) = s.inFile files (some file) := by
  cases document with
  | none => simp only [inFile, inDocument, hfile]
  | some document => simp only [inFile, inDocument, hfile]

/-! ## Where a value comes from -/

/-- What has to be there for a layer to be reported. -/
def Supplies (s : Setting) (file : Option SettingsFile) (w : World) : Layer → Prop
  | .environment => ∃ raw, w.environment.get? s.option.variableName = some raw
  | .sectionedFile => ∃ f document, file = some f ∧ f.content = .sectioned document
  | .yamlFile => ∃ f document, file = some f ∧ f.content = .yaml (some document) ∧
      document.members ≠ [] ∧ s.switch.isSome

theorem of?_eq_some {layer : Layer} {v : Value} {r : Resolved}
    (h : Resolved.of? layer v = some r) : r.layer = layer ∧ r.value.isAbsent = false := by
  unfold Resolved.of? at h
  split at h
  · cases h
  · rename_i hv
    obtain rfl := Option.some.inj h
    exact ⟨rfl, by simpa using hv⟩

/-- A value from a file is not absent, and comes from the layer of the document that is there. -/
theorem inFile_eq_some {s : Setting} {files : FileTree} {file : Option SettingsFile} {r : Resolved}
    (h : s.inFile files file = .ok (some r)) (w : World) :
    r.value.isAbsent = false ∧ s.Supplies file w r.layer := by
  cases file with
  | none => cases h
  | some f =>
    rcases hcontent : f.content with document | (_ | document)
    · simp only [inFile, inDocument, hcontent] at h
      cases hv : s.option.valueInDocument s.transform files document with
      | error failure => rw [hv] at h; cases h
      | ok v =>
        rw [hv] at h
        obtain ⟨hlayer, hvalue⟩ := of?_eq_some (Except.ok.inj h)
        exact ⟨hvalue, by rw [hlayer]; exact ⟨f, document, rfl, hcontent⟩⟩
    · simp only [inFile, inDocument, hcontent] at h
      cases h
    · simp only [inFile, inDocument, hcontent] at h
      cases hswitch : s.switch with
      | none => rw [hswitch] at h; cases h
      | some key =>
        simp only [hswitch] at h
        split at h
        · cases h
        · rename_i hmembers
          obtain ⟨hlayer, hvalue⟩ := of?_eq_some (Except.ok.inj h)
          have hne : document.members ≠ [] := by simpa using hmembers
          refine ⟨hvalue, ?_⟩
          rw [hlayer]
          exact ⟨f, document, rfl, hcontent, hne, by rw [hswitch]; rfl⟩

/-- A value that is found is not absent, and its layer is one that was there to supply it. -/
theorem inLayers_eq_some {s : Setting} {file : Option SettingsFile} {w : World} {r : Resolved}
    (h : s.inLayers w file = .ok (some r)) :
    r.value.isAbsent = false ∧ s.Supplies file w r.layer := by
  cases hset : w.environment.get? s.option.variableName with
  | none =>
    rw [inLayers_of_unset hset] at h
    exact inFile_eq_some h w
  | some raw =>
    cases hv : transformed s.transform w.files (.str raw) with
    | error failure =>
      rw [inLayers, OptionKey.valueInEnvironment, hset] at h
      simp only [hv] at h
      cases h
    | ok v =>
      rw [inLayers_of_set hset hv] at h
      cases hv : v.isAbsent with
      | true =>
        rw [hv, if_pos rfl] at h
        exact inFile_eq_some h w
      | false =>
        rw [hv, if_neg Bool.false_ne_true] at h
        obtain rfl := Option.some.inj (Except.ok.inj h)
        exact ⟨hv, raw, hset⟩

/-- Without a layer that could supply a value, none is found. -/
theorem inLayers_of_not_supplies {s : Setting} {file : Option SettingsFile} {w : World}
    (h : ∀ layer, ¬ s.Supplies file w layer) : s.inLayers w file = .ok none := by
  have hunset : w.environment.get? s.option.variableName = none := by
    cases hset : w.environment.get? s.option.variableName with
    | none => rfl
    | some raw => exact absurd ⟨raw, hset⟩ (h .environment)
  rw [inLayers_of_unset hunset]
  cases file with
  | none => rfl
  | some f =>
    rcases hcontent : f.content with document | (_ | document)
    · exact absurd ⟨f, document, rfl, hcontent⟩ (h .sectionedFile)
    · simp only [inFile, inDocument, hcontent]
    · simp only [inFile, inDocument, hcontent]
      cases hswitch : s.switch with
      | none => rfl
      | some key =>
        by_cases hmembers : document.members = []
        · simp [hmembers]
        · have hsupplies : s.Supplies (some f) w .yamlFile :=
            ⟨f, document, rfl, hcontent, hmembers, by rw [hswitch]; rfl⟩
          exact absurd hsupplies (h .yamlFile)

/-! ## The layering of a resolution -/

/-- How the layers of a setting stand above each other in a world, over a file or none. -/
structure Layered (s : Setting) (file : Option SettingsFile) (w : World) : Prop where
  /-- A value that the variable gives is the result, whatever the file. -/
  variable_first : ∀ raw v, w.environment.get? s.option.variableName = some raw →
    transformed s.transform w.files (.str raw) = .ok v → v.isAbsent = false →
      (s.resolve file).outcome w = .ok (some ⟨v, .environment⟩)
  /-- A variable that is transformed to nothing is as good as unset. -/
  absent_as_unset : ∀ raw, w.environment.get? s.option.variableName = some raw →
    transformed s.transform w.files (.str raw) = .ok .absent →
      (s.resolve file).outcome w =
        (s.resolve file).outcome
          { w with environment := w.environment.unset s.option.variableName }
  /-- Without the variable no other variable counts, and nothing else in the world but files. -/
  other_variables : w.environment.get? s.option.variableName = none →
    ∀ w' : World, w'.environment.get? s.option.variableName = none → w'.files = w.files →
      (s.resolve file).outcome w' = (s.resolve file).outcome w
  /-- Over a sectioned document the switch does not count. -/
  sectioned_alone : ∀ f document, file = some f → f.content = .sectioned document →
    ∀ switch, ({ s with switch }.resolve file).outcome w = (s.resolve file).outcome w
  /-- Over a YAML file the option does not count, as long as no variable does. -/
  yaml_alone : ∀ f document, file = some f → f.content = .yaml document →
    ∀ option : OptionKey, w.environment.get? s.option.variableName = none →
      w.environment.get? option.variableName = none →
        ({ s with option }.resolve file).outcome w = (s.resolve file).outcome w
  /-- A layer is reported only where it is there, and never with an absent value. -/
  reported : ∀ r, (s.resolve file).outcome w = .ok (some r) →
    r.value.isAbsent = false ∧ s.Supplies file w r.layer
  /-- Without the variable and without a document to ask there is nothing. -/
  nothing : (∀ layer, ¬ s.Supplies file w layer) → (s.resolve file).outcome w = .ok none
  /-- Reading gives the value of the result, and nothing where there is none. -/
  read : (s.read file).outcome w =
    ((s.resolve file).outcome w).map fun found => (found.map (·.value)).getD .absent

/-- Every setting is layered over every file in every world. -/
theorem resolve_layered (s : Setting) (file : Option SettingsFile) (w : World) :
    s.Layered file w := by
  refine ⟨?_, ?_, ?_, ?_, ?_, ?_, ?_, ?_⟩
  · intro raw v hset hv hpresent
    rw [outcome_resolve, inLayers_of_set hset hv, hpresent, if_neg Bool.false_ne_true]
  · intro raw hset hv
    have habsent : Value.absent.isAbsent = true := rfl
    have hunset :
        (w.environment.unset s.option.variableName).get? s.option.variableName = none := by
      rw [Environment.get?_unset, if_pos rfl]
    rw [outcome_resolve, outcome_resolve, inLayers_of_set hset hv, if_pos habsent,
      inLayers_of_unset (s := s) hunset]
  · intro hunset w' hunset' hfiles
    rw [outcome_resolve, outcome_resolve, inLayers_of_unset hunset, inLayers_of_unset hunset',
      hfiles]
  · intro f document hf hcontent switch
    subst hf
    simp only [outcome_resolve, inLayers, inFile_switch hcontent]
  · intro f document hf hcontent option hunset hunset'
    subst hf
    rw [outcome_resolve, outcome_resolve, inLayers_of_unset hunset,
      inLayers_of_unset (s := { s with option }) hunset', inFile_option hcontent]
  · intro r hr
    rw [outcome_resolve] at hr
    exact inLayers_eq_some hr
  · intro h
    rw [outcome_resolve, inLayers_of_not_supplies h]
  · rw [outcome_read, outcome_resolve]

end Setting

end LayeredSettings
