import LayeredSettings.Sectioned.Document
import LayeredSettings.Setting.Key
import LayeredSettings.Value.Walk
import LayeredSettings.World.Basic
import LayeredSettings.Yaml.Document

/-!
# Settings files

A location that ends in `yaml` is read as YAML, any other as a sectioned file. A sectioned file
that is not there is empty. A YAML file has to be there, but what it holds counts only if it is a
mapping; anything else is logged and leaves the file without a document.
-/

namespace LayeredSettings

/-- The formats of files. -/
inductive FileFormat where
  | sectioned
  | yaml
deriving DecidableEq, Repr

/-- The name of a format. -/
def FileFormat.name : FileFormat → String
  | sectioned => "legacy"
  | yaml => "yaml"

/-- What a file was read as. -/
inductive FileContent where
  | sectioned (document : Sectioned.Document)
  | yaml (document : Option Value)

/-- A file that was read. -/
structure SettingsFile where
  location : String
  content : FileContent

namespace SettingsFile

/-- The format of a location. -/
def formatOf (location : String) : FileFormat :=
  if "yaml".toList.isSuffixOf location.toList then .yaml else .sectioned

/-- The format of a file. -/
def format (file : SettingsFile) : FileFormat :=
  match file.content with
  | .sectioned _ => .sectioned
  | .yaml _ => .yaml

/-- The document of a sectioned file. -/
def sectionedDocument? (file : SettingsFile) : Option Sectioned.Document :=
  match file.content with
  | .sectioned document => some document
  | .yaml _ => none

/-- The document of a YAML file. -/
def yamlDocument? (file : SettingsFile) : Option Value :=
  match file.content with
  | .sectioned _ => none
  | .yaml document => document

/-! ## Reading -/

/-- What stands in a log for the system's words on a file that cannot be read. -/
def systemError : String := "<io error>"

/-- What stands in a log for the words on a text that is not YAML. -/
def yamlError : String := "<yaml error>"

/-- The document of a text that is to be YAML, with the record that says how it went. -/
def readYamlText (location : String) (text : List Char) :
    Option Value × String × String × Option (Members Value) :=
  match Yaml.load text with
  | .error _ =>
    (none, "warn",
      "Error " ++ yamlError ++ " reading yaml config file at " ++ location ++ ", ignoring...", none)
  | .ok .absent | .ok .null =>
    (none, "debug", "Yaml config file at " ++ location ++ " is empty", none)
  | .ok document =>
    if document.isMapping then
      (some document, "debug", "Loaded yaml config from " ++ location,
        some [("document", document)])
    else
      (none, "warn",
        "Yaml config file at " ++ location ++ " does not hold a mapping, ignoring...", none)

/-- Reads a YAML file. -/
def readYaml (location : String) : Action (Option Value) := do
  match (← get).files.textOf? location with
  | none => throw (.settings (.of (.notFound location) (some systemError) none))
  | some text =>
    let (document, level, message, extra) := readYamlText location text
    Action.log level message extra
    return document

/-- The text of a sectioned file. A file that cannot be read is empty. -/
def readSectionedText (location : String) : Action (List Char) := do
  let files := (← get).files
  if files.pathExists location then
    match files.textOf? location with
    | some text => return text
    | none =>
      Action.log "debug"
        ("Could not read config file at " ++ location ++ ", treating it as empty")
        (some [("error", .str systemError)])
      return []
  else
    Action.log "debug" ("Config file " ++ location ++ " does not exist, treating it as empty") none
    return []

/-- Reads the file at a location. -/
def load (location : String) : Action SettingsFile := do
  match formatOf location with
  | .yaml => return { location, content := .yaml (← readYaml location) }
  | .sectioned =>
    let text ← readSectionedText location
    let document ← Action.ofExcept (Sectioned.Document.ofText location text)
    return { location, content := .sectioned document }

/-! ## Looking up -/

/-- The value at the end of a switch. A name that is missing on the way is logged. -/
def getYaml (location : String) (document : Value) (key : SwitchKey) : Action Value :=
  match document.walk key.path with
  | .found v => return v
  | .missing _ => do
    Action.log "error" ("Switch " ++ key.switch ++ " could not be found in yaml config") none
    Action.log "debug" ("Yaml config at " ++ location) (some [("document", document)])
    return .absent
  | .blocked name => throw (.notAMapping name key.switch)

/-- The value that a key asks for. A file answers only keys of its own format. -/
def get (file : SettingsFile) (key : Key) : Action Value :=
  match key, file.content with
  | .option key, .sectioned document => Action.ofExcept (document.get key)
  | .switch key, .yaml (some document) => getYaml file.location document key
  | _, _ => throw (.of (.unsupported key.kind file.location))

end SettingsFile

end LayeredSettings
