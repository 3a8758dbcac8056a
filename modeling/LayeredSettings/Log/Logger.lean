import LayeredSettings.Failure
import LayeredSettings.Log.Level
import LayeredSettings.Log.Redaction
import LayeredSettings.Text.Case

/-!
# Loggers

A logger turns calls into records and records into lines. A line is one JSON object or one line of
plain text; which of the two is a matter of the logger's format. An extra without an end has no
line in either: the logger fails when it copies the extra to redact it, or else when it writes it.
Whatever has an end is taken to be within the limits of the platform, at any depth and size.
-/

namespace LayeredSettings.Log

/-- How lines are written. -/
inductive Format where
  | json
  | text
deriving DecidableEq, Repr

/-- A logger. -/
structure Logger where
  name : String := "flyte.config"
  format : Format := .json
  level : String := "info"
  redactSensitive : Bool := true
deriving DecidableEq, Repr

/-- One thing that was logged, as it is written. -/
structure Record where
  level : String
  logger : String
  message : String
  extra : Option (Members Value)

/-- The time of a record, in the form of each format. -/
structure Stamp where
  full : String
  plain : String

namespace Logger

/-- Whether records of a level are written. -/
def isEnabled (logger : Logger) (level : String) : Bool :=
  (rank level).atLeast (rank logger.level)

/-- An extra as it is shown. -/
def shown (logger : Logger) (extra : Option (Members Value)) : Option (Members Value) :=
  if logger.redactSensitive then extra.map redactMembers else extra

/-- Whether an extra has an end as it is shown. -/
def hasEnd (logger : Logger) (extra : Option (Members Value)) : Bool :=
  (logger.shown extra).all fun members => !(Value.map members).isEndless

/-- The failure of a call, if its level is enabled and what is to be shown has no end. -/
def refusal? (logger : Logger) (level : String) (extra : Option (Members Value)) :
    Option Failure :=
  if logger.isEnabled level && !logger.hasEnd extra then
    some (if logger.redactSensitive then .overflow else .circular)
  else none

/-- The record of a call, if its level is enabled and the call does not fail. -/
def record? (logger : Logger) (level message : String) (extra : Option (Members Value)) :
    Option Record :=
  if logger.isEnabled level && logger.hasEnd extra then
    some { level, logger := logger.name, message, extra := logger.shown extra }
  else none

/-- The members of a JSON line, in their order. -/
def lineMembers (stamp : Stamp) (record : Record) : Members Value :=
  [("timestamp", .str stamp.full), ("level", .str record.level),
    ("message", .str record.message), ("logger", .str record.logger),
    ("extra", match record.extra with
      | some members => .map members
      | none => .null)]

/-- The text of a member in a plain line: lists, maps and null in JSON, all else as it is. -/
def plainPart : Value → String
  | .null => "null"
  | .list items => Json.render (.list items)
  | .map members => Json.render (.map members)
  | .date t => Json.render (.date t)
  | .bytes data => Json.render (.bytes data)
  | v => v.text

/-- The members of a plain line, each after a name and an equals sign. -/
def plainExtra : Option (Members Value) → String
  | none => ""
  | some members =>
    " " ++ " ".intercalate (members.map fun (name, part) => name ++ "=" ++ plainPart part)

/-- The line of a record, with the line feed that ends it. -/
def line (logger : Logger) (stamp : Stamp) (record : Record) : String :=
  match logger.format with
  | .json => Json.render (.map (lineMembers stamp record)) ++ "\n"
  | .text =>
    stamp.plain ++ " [" ++ Text.upperCase record.level ++ "] [" ++ record.logger ++ "] " ++
      record.message ++ plainExtra record.extra ++ "\n"

/-- The line of a call, if its level is enabled and the call does not fail. -/
def line? (logger : Logger) (stamp : Stamp) (level message : String)
    (extra : Option (Members Value)) : Option String :=
  (logger.record? level message extra).map (logger.line stamp)

end Logger

/-- The variable that names the level of the default logger. -/
def levelVariable : String := "FLYTE_CONFIG_LOG_LEVEL"

/-- The default logger at the level that a variable asks for; `warn` if it names none. -/
def Logger.default (requested : Option String) : Logger :=
  let level := (requested.map Text.lowerCase).filter isListed
  { level := level.getD "warn" }

end LayeredSettings.Log
