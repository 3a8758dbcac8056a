import LayeredSettings.Problem

/-!
# Failures

All the ways in which an operation can end without a result. Besides settings errors there are
the failed walk through a value that is no mapping, faults in the structure of a sectioned text,
whatever a transform raises, and values without an end where one is to be copied or written.
-/

namespace LayeredSettings

/-- Faults in the structure of a sectioned text. -/
inductive StructureFault where
  /-- A name that has no text. -/
  | namelessKey
  /-- A member of nothing. -/
  | memberOfNull
  /-- A list given a length that is none. -/
  | badLength
  /-- An item that has no text. -/
  | textlessItem
deriving DecidableEq, Repr

/-- Why an operation has no result. -/
inductive Failure where
  | settings (error : SettingsError)
  | notAMapping (key switch : String)
  | malformed (fault : StructureFault)
  | raised (message : String)
  /-- A value without an end was to be copied. -/
  | overflow
  /-- A value without an end was to be written. -/
  | circular

namespace Failure

/-- The failure of a problem alone. -/
def of (problem : Problem) : Failure := settings (.of problem none none)

/-- Whether the failure lies in the data of a user. -/
def isFormat : Failure → Bool
  | settings e => e.problem.isFormat
  | _ => false

/-- What stands for the system's words on a value without an end. -/
def circularText : String := "<json error>"

/-- The kind of a failure. What is out of range, a length or a depth, is one kind, any other misuse
of a value another. -/
def kind : Failure → String
  | settings e => e.problem.kind
  | notAMapping _ _ => "TypeError"
  | malformed .badLength => "RangeError"
  | malformed _ => "TypeError"
  | raised _ => "Error"
  | overflow => "RangeError"
  | circular => "TypeError"

/-- The message of a failure. Faults of structure have none of their own. -/
def message : Failure → String
  | settings e => e.problem.message
  | notAMapping key switch =>
    "Cannot read '" ++ key ++ "' of a non-mapping value while resolving switch " ++ switch
  | malformed _ => ""
  | raised message => message
  | overflow => "Maximum call stack size exceeded"
  | circular => circularText

/-- The failure of a value that is not what was expected. The report shows the value, so that one
without an end cannot be reported. -/
def ofValue (found : Value) (expected : String) (place : Option (Members Value)) : Failure :=
  if found.isEndless then circular else of (.value found expected place)

/-- The text of a failure. -/
def text : Failure → String
  | settings e => e.text
  | f => errorText f.kind f.message

end Failure

end LayeredSettings
