import LayeredSettings.Members

/-!
# The environment

Variables and their values. Names and values end at a null character, which the environment cannot
hold. A name is not empty and has no equals sign, since that is what ends it; a name of another
form is never set.
-/

namespace LayeredSettings

/-- The variables that are set. -/
structure Environment where
  bindings : Members String

namespace Environment

/-- What the environment keeps of a text. -/
def kept (s : String) : String := String.ofList (s.toList.takeWhile (· ≠ '\x00'))

/-- Whether a variable can have this name. -/
def isName (name : String) : Bool := name != "" && !name.toList.contains '='

/-- The environment without variables. -/
def empty : Environment := { bindings := [] }

/-- The value of a variable, if it is set. -/
def get? (env : Environment) (name : String) : Option String := env.bindings.get? (kept name)

/-- Sets a variable. -/
def set (env : Environment) (name value : String) : Environment :=
  if isName (kept name) then { bindings := env.bindings.set (kept name) (kept value) } else env

/-- Clears a variable. -/
def unset (env : Environment) (name : String) : Environment :=
  { bindings := env.bindings.erase (kept name) }

/-- A variable that can be set has what is kept of its value, and all others stay. -/
theorem get?_set (env : Environment) (name other value : String) (hname : isName (kept name)) :
    (env.set name value).get? other =
      if kept other = kept name then some (kept value) else env.get? other := by
  simp [set, get?, hname, Members.get?_set]

/-- A variable that is cleared is not set, and all others stay. -/
theorem get?_unset (env : Environment) (name other : String) :
    (env.unset name).get? other = if kept other = kept name then none else env.get? other := by
  simp [unset, get?, Members.get?_erase]

end Environment

end LayeredSettings
