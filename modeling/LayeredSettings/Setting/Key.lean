import LayeredSettings.Text.Case
import LayeredSettings.Text.Lines

/-!
# Keys

Where a setting can be found. A sectioned file holds it under a section and an option, and the
environment under a name made of both. A YAML file holds it at the end of a switch, a path of names
between dots.
-/

namespace LayeredSettings

/-- The types that an option can be read at. -/
inductive ValueType where
  | string
  | bool
  | int
  | list
deriving DecidableEq, Repr

namespace ValueType

/-- All types, in the order in which they are listed. -/
def all : List ValueType := [string, bool, int, list]

/-- The name of a type. -/
def name : ValueType → String
  | string => "string"
  | bool => "bool"
  | int => "int"
  | list => "list"

/-- The type of a name. -/
def ofName? (name : String) : Option ValueType := all.find? (·.name == name)

end ValueType

/-- What the names of all variables begin with. -/
def variablePrefix : String := "FLYTE"

/-- A place in sectioned files and in the environment. -/
structure OptionKey where
  sectionName : String
  option : String
  valueType : ValueType
deriving DecidableEq, Repr

/-- The variable that holds the setting of a section and an option. -/
def OptionKey.variableName (key : OptionKey) : String :=
  variablePrefix ++ "_" ++ Text.upperCase key.sectionName ++ "_" ++ Text.upperCase key.option

/-- A place in YAML files. -/
structure SwitchKey where
  switch : String
  valueType : ValueType
deriving DecidableEq, Repr

/-- The names that lead to the place. -/
def SwitchKey.path (key : SwitchKey) : List String := Text.splitAt '.' key.switch

/-- What a file can be asked for. -/
inductive Key where
  | option (key : OptionKey)
  | switch (key : SwitchKey)
  /-- A key of a kind that no file answers. -/
  | other (kind : String)
deriving DecidableEq, Repr

/-- The kind of a key: the format of the files that answer it. -/
def Key.kind : Key → String
  | option _ => "legacy"
  | switch _ => "yaml"
  | other kind => kind

end LayeredSettings
