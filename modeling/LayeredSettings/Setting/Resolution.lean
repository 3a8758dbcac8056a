import LayeredSettings.Setting.Catalog
import LayeredSettings.SettingsFile.Basic

/-!
# Resolution

A setting is looked for in the environment first and then in the one document that a file holds.
Raw values go through the setting's transform. In a sectioned file only problems of format read as
a missing value; in a YAML file every failure does, and so does every value that counts as false.
-/

namespace LayeredSettings

/-- Applies a transform, if there is one. -/
def applyTransform (transform : Option Transform) (v : Value) : Action Value := do
  match transform with
  | some t => Action.ofExcept (t.run (← get).files v)
  | none => return v

/-- The value of a key in the environment. -/
def OptionKey.readFromEnvironment (key : OptionKey) (transform : Option Transform) :
    Action Value := do
  match (← get).environment.get? key.variableName with
  | some raw => applyTransform transform (.str raw)
  | none => return .absent

/-- The value of a key in a sectioned file. -/
def OptionKey.readFromFile (key : OptionKey) (file : SettingsFile)
    (transform : Option Transform) : Action Value :=
  tryCatch (do applyTransform transform (← file.get (.option key))) fun failure =>
    if failure.isFormat then return .absent else throw failure

/-- The value of a key in a YAML file. -/
def SwitchKey.readFromFile (key : SwitchKey) (file : SettingsFile)
    (transform : Option Transform) : Action Value :=
  tryCatch
    (do
      let v ← file.get (.switch key)
      if v.truthy then applyTransform transform v else return .absent)
    fun failure => do
      Action.log "debug" ("Could not read switch " ++ key.switch ++ " from " ++ file.location)
        (some [("error", .str failure.text)])
      return .absent

/-- The layers that a value can come from. -/
inductive Layer where
  | environment
  | sectionedFile
  | yamlFile
deriving DecidableEq, Repr

/-- The name of a layer. -/
def Layer.name : Layer → String
  | environment => "env"
  | sectionedFile => "legacy"
  | yamlFile => "yaml"

/-- A value with the layer that it comes from. -/
structure Resolved where
  value : Value
  layer : Layer

/-- A value from a layer, unless it is absent. -/
def Resolved.of? (layer : Layer) (value : Value) : Option Resolved :=
  if value.isAbsent then none else some { value, layer }

namespace Setting

/-- The value of a setting in a file. An empty YAML document counts as none. -/
def resolveInFile (s : Setting) (file : SettingsFile) : Action (Option Resolved) := do
  match file.content with
  | .sectioned _ => return Resolved.of? .sectionedFile (← s.option.readFromFile file s.transform)
  | .yaml (some document) =>
    match s.switch with
    | some key =>
      if document.members.isEmpty then return none
      else return Resolved.of? .yamlFile (← key.readFromFile file s.transform)
    | none => return none
  | .yaml none => return none

/-- The value of a setting, and where it was found. -/
def resolve (s : Setting) (file : Option SettingsFile) : Action (Option Resolved) := do
  match Resolved.of? .environment (← s.option.readFromEnvironment s.transform) with
  | some resolved => return some resolved
  | none =>
    match file with
    | some file => s.resolveInFile file
    | none => return none

/-- The value of a setting. -/
def read (s : Setting) (file : Option SettingsFile) : Action Value := do
  match ← s.resolve file with
  | some resolved => return resolved.value
  | none => return .absent

end Setting

end LayeredSettings
