import LayeredSettings.Json.Writer

/-!
# Problems

Why a setting could not be read. A problem of format lies in the data of a user and reads as a
missing value; every other problem lies in the structure of a file or in how it is used, and is
always reported. Code, message and details of an error follow from its problem.
-/

namespace LayeredSettings

/-- The causes of settings errors. -/
inductive Problem where
  | general (code message : String) (details : Members Value)
  | notFound (path : String)
  | invalid (message : String) (details : Members Value)
  | format (code message : String) (details : Members Value)
  | lookup (sectionName option : String)
  | value (found : Value) (expected : String) (place : Option (Members Value))
  | unsupported (kind location : String)

namespace Problem

/-- The codes that the problems of this library have. -/
def codes : List String :=
  ["CONFIG_NOT_FOUND", "CONFIG_INVALID", "CONFIG_OPTION_NOT_FOUND", "CONFIG_VALUE_INVALID",
    "DESCRIPTOR_UNSUPPORTED"]

/-- The code of a problem. -/
def code : Problem → String
  | general code _ _ => code
  | notFound _ => "CONFIG_NOT_FOUND"
  | invalid _ _ => "CONFIG_INVALID"
  | format code _ _ => code
  | lookup _ _ => "CONFIG_OPTION_NOT_FOUND"
  | value _ _ _ => "CONFIG_VALUE_INVALID"
  | unsupported _ _ => "DESCRIPTOR_UNSUPPORTED"

/-- The name of the kind of error that reports a problem. -/
def kind : Problem → String
  | general _ _ _ => "SettingsError"
  | notFound _ => "ConfigNotFoundError"
  | invalid _ _ => "ConfigError"
  | format _ _ _ => "ConfigFormatError"
  | lookup _ _ => "ConfigLookupError"
  | value _ _ _ => "ConfigValueError"
  | unsupported _ _ => "UnsupportedDescriptorError"

/-- The text of one member of a place. -/
def placePart (place : Members Value) (name : String) : String :=
  ((place.get? name).getD .absent).text

/-- The message of a problem. -/
def message : Problem → String
  | general _ message _ => message
  | notFound path => "Configuration file not found: " ++ path
  | invalid message _ => message
  | format _ message _ => message
  | lookup sectionName option => "No option '" ++ option ++ "' in section '" ++ sectionName ++ "'"
  | value found expected place =>
    let position := match place with
      | some place => " for [" ++ placePart place "section" ++ "] " ++ placePart place "option"
      | none => ""
    "Not a valid " ++ expected ++ position ++ ": " ++ Json.render found
  | unsupported kind location =>
    "Config descriptor '" ++ kind ++ "' is not supported by '" ++ location ++ "'"

/-- The details of a problem. -/
def details : Problem → Members Value
  | general _ _ details => details
  | notFound path => [("configPath", .str path)]
  | invalid _ details => details
  | format _ _ details => details
  | lookup sectionName option => [("section", .str sectionName), ("option", .str option)]
  | value found expected place =>
    (place.getD []).foldl (fun details entry => details.set entry.1 entry.2)
      ([("value", found), ("expected", .str expected)] : Members Value)
  | unsupported kind location => [("descriptorKind", .str kind), ("location", .str location)]

/-- The advice that a problem brings with it. -/
def advice : Problem → Option String
  | unsupported _ _ => some "Legacy entries read .config/INI files, YAML entries read .yaml files"
  | _ => none

/-- Whether the problem lies in the data of a user. -/
def isFormat : Problem → Bool
  | format _ _ _ | lookup _ _ | value _ _ _ => true
  | _ => false

end Problem

/-- The text of an error of some kind: the kind and the message, or the one that is not empty. -/
def errorText (kind message : String) : String :=
  if kind = "" then message else if message = "" then kind else kind ++ ": " ++ message

/-- A problem with what is known beyond it: the text of its cause, and advice. -/
structure SettingsError where
  problem : Problem
  cause : Option String
  suggestion : Option String

namespace SettingsError

/-- The error of a problem. Advice that is given takes the place of the problem's own. -/
def of (problem : Problem) (cause suggestion : Option String) : SettingsError :=
  { problem, cause, suggestion := suggestion.or problem.advice }

/-- The text of an error: its code and its message. -/
def text (e : SettingsError) : String :=
  "[" ++ e.problem.code ++ "] " ++ e.problem.message

/-- The members of an error's report at a time. Empty details, a missing cause and missing advice
are left out. -/
def report (e : SettingsError) (time : String) : Members Value :=
  [("code", .str e.problem.code), ("message", .str e.problem.message)] ++
    (if e.problem.details.isEmpty then [] else [("details", .map e.problem.details)]) ++
    (match e.cause with | some cause => [("cause", Value.str cause)] | none => []) ++
    [("timestamp", .str time)] ++
    (match e.suggestion with | some advice => [("suggestion", Value.str advice)] | none => [])

end SettingsError

end LayeredSettings
