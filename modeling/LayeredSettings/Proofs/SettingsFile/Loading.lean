import LayeredSettings.Proofs.World.Calls
import LayeredSettings.SettingsFile.Basic

/-!
# Loading settings files

What a file is read as is up to its location and its text, and so is what is logged on the way.

* `loaded`, `loadCalls`, `reports_load` — what a file is read as and which calls are made; only the
  call that shows a YAML document can fail;
* `textAt`, `run_load` — a sectioned file is read as the document of its text, which is empty where
  no file can be read; only then something is logged;
* `Holds`, `run_load_of_holds` — what this means for a file that is there.
-/

namespace LayeredSettings

/-- Whether the file of a location is a sectioned one and holds a text. -/
structure World.Holds (w : World) (location : String) (text : List Char) : Prop where
  format : SettingsFile.formatOf location = .sectioned
  path : w.files.pathExists location = true
  text : w.files.textOf? location = some text

/-- What is not there has no text either. -/
theorem FileTree.textOf?_eq_none {files : FileTree} {path : String}
    (h : ¬ files.pathExists path = true) : files.textOf? path = none := by
  have hnone : files.find? path = none := by
    simpa [pathExists] using h
  simp [textOf?, contentOf?, hnone]

/-- The text of the file of a location. Where no file can be read there is none. -/
def World.textAt (w : World) (location : String) : List Char :=
  (w.files.textOf? location).getD []

theorem World.Holds.textAt_eq {w : World} {location : String} {text : List Char}
    (h : w.Holds location text) : w.textAt location = text := by
  rw [World.textAt, h.text, Option.getD_some]

/-- A world with one file, in the directory in which relative paths start. -/
def World.ofFile (name : String) (content : List UInt8) : World :=
  { environment := .empty
    files := { workingDirectory := [], nodes := [([name], .file content)] }
    logger := none, records := [], accountHome := "/" }

namespace SettingsFile

/-- The file of a document. -/
def ofDocument (location : String) (document : Sectioned.Document) : SettingsFile :=
  { location, content := .sectioned document }

/-- The call that says why a sectioned file is taken for an empty one. -/
def emptyCall (files : FileTree) (location : String) : Log.Call :=
  if files.pathExists location then
    ⟨"debug", "Could not read config file at " ++ location ++ ", treating it as empty",
      some [("error", .str systemError)]⟩
  else ⟨"debug", "Config file " ++ location ++ " does not exist, treating it as empty", none⟩

/-- A text is read from any state of the files, with a call if there is none. -/
theorem run_readSectionedText (location : String) (w : World) :
    (readSectionedText location).run w =
      (.ok (w.textAt location), w.logAll
        (if (w.files.textOf? location).isSome then [] else [emptyCall w.files location])) := by
  rw [readSectionedText, Action.run_get_bind, World.textAt, emptyCall]
  by_cases hpath : w.files.pathExists location = true
  · rw [if_pos hpath, if_pos hpath]
    cases w.files.textOf? location with
    | some text => rfl
    | none =>
      rw [Action.run_bind,
        Action.run_log_of_hasEnd (w.currentLogger.hasEnd_text "error" systemError)]
      rfl
  · rw [if_neg hpath, if_neg hpath, FileTree.textOf?_eq_none hpath, Action.run_bind,
      Action.run_log_of_hasEnd w.currentLogger.hasEnd_none]
    rfl

/-- A location of a sectioned file is read as the document of the text that is there. -/
theorem run_load {location : String} (h : formatOf location = .sectioned) (w : World) :
    (load location).run w =
      ((Sectioned.Document.ofText location (w.textAt location)).map (ofDocument location),
        w.logAll
          (if (w.files.textOf? location).isSome then [] else [emptyCall w.files location])) := by
  rw [load, h]
  simp only []
  rw [Action.run_bind, run_readSectionedText]
  simp only []
  rw [Action.run_bind, Action.run_ofExcept]
  cases Sectioned.Document.ofText location (w.textAt location) with
  | ok document => rfl
  | error failure => rfl

/-- A sectioned file is read as the document of its text, and nothing is logged. -/
theorem run_load_of_holds {w : World} {location : String} {text : List Char}
    (h : w.Holds location text) :
    (load location).run w =
      ((Sectioned.Document.ofText location text).map (ofDocument location), w) := by
  rw [run_load h.format, h.textAt_eq, h.text]
  rfl

theorem outcome_load {w : World} {location : String} (h : formatOf location = .sectioned) :
    (load location).outcome w =
      (Sectioned.Document.ofText location (w.textAt location)).map (ofDocument location) := by
  rw [Action.outcome, run_load h]

theorem outcome_load_of_holds {w : World} {location : String} {text : List Char}
    (h : w.Holds location text) :
    (load location).outcome w =
      (Sectioned.Document.ofText location text).map (ofDocument location) := by
  rw [outcome_load h.format, h.textAt_eq]

/-! ## Files of both formats -/

/-- The call that says how reading a text as YAML went. -/
def yamlCall (location : String) (text : List Char) : Log.Call :=
  let told := (readYamlText location text).2
  ⟨told.1, told.2.1, told.2.2⟩

/-- The calls of reading a file. A sectioned file that is there is read without one, and so is a
YAML file that is not there. -/
def loadCalls (files : FileTree) (location : String) : List Log.Call :=
  match formatOf location, files.textOf? location with
  | .yaml, some text => [yamlCall location text]
  | .yaml, none => []
  | .sectioned, some _ => []
  | .sectioned, none => [emptyCall files location]

/-- What a file is read as, unless a call fails. -/
def loaded (files : FileTree) (location : String) : Except Failure SettingsFile :=
  match formatOf location, files.textOf? location with
  | .yaml, some text => .ok { location, content := .yaml (readYamlText location text).1 }
  | .yaml, none => .error (.settings (.of (.notFound location) (some systemError) none))
  | .sectioned, text =>
    (Sectioned.Document.ofText location (text.getD [])).map (ofDocument location)

theorem reports_readYaml {w : World} {location : String} {text : List Char}
    (htext : w.files.textOf? location = some text) :
    (readYaml location).Reports w [yamlCall location text]
      (.ok (readYamlText location text).1) := by
  have hread : (readYaml location).run w =
      (Action.log (yamlCall location text).level (yamlCall location text).message
        (yamlCall location text).extra >>= fun _ =>
          pure (readYamlText location text).1).run w := by
    rw [readYaml, Action.run_get_bind, htext]
    rfl
  rw [Action.Reports, hread]
  exact (Action.reports_log _ _ _ w).answer _

theorem refusalAmong?_emptyCall (logger : Log.Logger) (files : FileTree) (location : String) :
    logger.refusalAmong? [emptyCall files location] = none := by
  have hend : logger.hasEnd (emptyCall files location).extra = true := by
    rw [emptyCall]
    split
    · exact logger.hasEnd_text _ _
    · exact logger.hasEnd_none
  rw [Log.Logger.refusalAmong?, List.findSome?_cons, Log.Logger.refusal?_eq_none hend]
  rfl

/-- Reading a file. -/
theorem reports_load (location : String) (w : World) :
    (load location).Reports w (loadCalls w.files location) (loaded w.files location) := by
  unfold loadCalls loaded
  cases hformat : formatOf location with
  | yaml =>
    have hload : load location = readYaml location >>= fun document =>
        pure { location, content := .yaml document } := by
      rw [load, hformat]
    rw [hload]
    cases htext : w.files.textOf? location with
    | some text => exact (reports_readYaml htext).answer _
    | none =>
      have hread : (readYaml location).run w =
          (.error (.settings (.of (.notFound location) (some systemError) none)), w) := by
        rw [readYaml, Action.run_get_bind, htext]
        rfl
      exact (Action.reports_nil_of_run hread).answer _
  | sectioned =>
    rw [Action.Reports, run_load hformat, World.textAt]
    cases w.files.textOf? location with
    | some text => rfl
    | none =>
      dsimp only
      rw [refusalAmong?_emptyCall]
      rfl

end SettingsFile

end LayeredSettings
