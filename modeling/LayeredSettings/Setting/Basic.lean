import LayeredSettings.Setting.Key
import LayeredSettings.Setting.Transform

/-!
# Settings

A setting has a place in sectioned files and in the environment. It may have another in YAML files,
and a transform for its raw values.
-/

namespace LayeredSettings

/-- A setting: its two places, and the transform that its raw values go through. -/
structure Setting where
  option : OptionKey
  switch : Option SwitchKey
  transform : Option Transform

/-- The transform of the settings of a type that are given none. -/
def ValueType.usualTransform : ValueType → Option Transform
  | bool => some Transform.bool
  | _ => none

/-- A setting whose transform, if it is given none, follows from the type of its option. -/
def Setting.of (option : OptionKey) (switch : Option SwitchKey) (transform : Option Transform) :
    Setting :=
  { option, switch, transform := transform.or option.valueType.usualTransform }

end LayeredSettings
