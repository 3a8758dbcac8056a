import LayeredSettings.Value.Basic

/-!
# The package

Its version, and the one helper that it offers beside settings.
-/

namespace LayeredSettings

/-- The version of the package. -/
def version : String := "0.1.0"

/-- Sets the part of a name to a value that is there: neither absent nor null. -/
def setIfPresent (members : Members Value) (name : String) (v : Value) : Members Value :=
  match v with
  | .absent | .null => members
  | v => members.set name v

end LayeredSettings
