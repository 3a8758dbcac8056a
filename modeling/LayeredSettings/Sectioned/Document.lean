import LayeredSettings.Sectioned.Sections
import LayeredSettings.Sectioned.Source
import LayeredSettings.Number.Reading
import LayeredSettings.Setting.Key

/-!
# Documents of sectioned files

A document holds options in sections. One section gives the others the options that they lack, and
one must not be there, since its settings never come from a file. An option is read at a type; a
text that does not fit the type is a problem of format.
-/

namespace LayeredSettings.Sectioned

/-- The section that no file may have. -/
def reservedSection : String := "internal"

/-- The section whose options all sections have. -/
def defaultSection : String := "DEFAULT"

/-- A sectioned file. -/
structure Document where
  sections : Sections
  defaults : Options

namespace Document

/-- The failure of a file with an option outside of its sections. -/
def strayOption (location name : String) : Failure :=
  .of (.invalid
    ("The config file '" ++ location ++
      "' has options outside of any section, starting at '" ++ name ++ "'")
    [("location", .str location), ("option", .str name)])

/-- The failure of a file with the reserved section. -/
def reserved (location : String) : Failure :=
  .of (.invalid
    ("The config file '" ++ location ++
      "' cannot contain a section for internal only configurations.")
    [("location", .str location), ("section", .str reservedSection)])

/-- The sections of a tree. At the top there are only sections. -/
def sectionsOf (location : String) (sections : Sections) :
    List (String × Ini.Node) → Except Failure Sections
  | [] => .ok sections
  | (name, .object _ members) :: rest =>
    match addSection sections name members with
    | .ok sections => sectionsOf location sections rest
    | .error fault => .error (.malformed fault)
  | (name, _) :: _ => .error (strayOption location name)

/-- The document of sections. -/
def ofSections (location : String) (sections : Sections) : Except Failure Document :=
  if sections.has reservedSection then .error (reserved location)
  else .ok
    { sections := sections.erase defaultSection
      defaults := (sections.get? defaultSection).getD [] }

/-- The document of a text. -/
def ofText (location : String) (text : List Char) : Except Failure Document :=
  match Ini.decode (normalize text) with
  | .error fault => .error (.malformed fault)
  | .ok tree => (sectionsOf location [] tree).bind (ofSections location)

/-! ## Options -/

/-- The text of an option of a section, its own or the one that all sections have. -/
def raw? (d : Document) (sectionName option : String) : Option String :=
  (d.sections.get? sectionName).bind fun options =>
    (options.get? (Text.lowerCase option)).or (d.defaults.get? (Text.lowerCase option))

/-- The words for the two truth values, in a table that like every table has some members of its
own. -/
def truthWords : List (String × Value) :=
  [("1", .bool true), ("yes", .bool true), ("true", .bool true), ("on", .bool true),
    ("0", .bool false), ("no", .bool false), ("false", .bool false), ("off", .bool false),
    ("constructor", .function "Object"), ("__proto__", .map [])]

/-- The value of a text at a type. -/
def extract (key : OptionKey) (raw : String) : Except Failure Value :=
  let refuse (expected : String) : Except Failure Value :=
    .error (.of (.value (.str raw) expected
      (some [("section", .str key.sectionName), ("option", .str key.option)])))
  match key.valueType with
  | .string => .ok (.str raw)
  | .list => .ok (Value.strings (Text.splitAt ',' raw))
  | .int => match Number.ofWholeText? raw with
    | some n => .ok (.num n)
    | none => refuse "integer"
  | .bool => match truthWords.lookup (Text.lowerCase (Text.trimmed raw)) with
    | some v => .ok v
    | none => refuse "boolean"

/-- The value of a key. -/
def get (d : Document) (key : OptionKey) : Except Failure Value :=
  match d.raw? key.sectionName key.option with
  | some raw => extract key raw
  | none => .error (.of (.lookup key.sectionName key.option))

end Document

end LayeredSettings.Sectioned
