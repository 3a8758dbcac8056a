import LayeredSettings.World.Environment
import LayeredSettings.Failure
import LayeredSettings.World.FileTree
import LayeredSettings.Log.Logger

/-!
# The world

What settings are read from, and what is logged on the way: variables, files, the logger of the
package and the records it has written. An action runs in a world and may fail; what it has logged
by then stays logged. To log is an action that may fail itself.
-/

namespace LayeredSettings

/-- What actions read and change. -/
structure World where
  environment : Environment
  files : FileTree
  /-- The logger of the package, once there is one. -/
  logger : Option Log.Logger
  /-- What has been logged, in order. -/
  records : List Log.Record
  /-- The home directory of an account without a variable for it. -/
  accountHome : String

/-- What runs in a world and may fail. -/
abbrev Action := ExceptT Failure (StateM World)

namespace World

/-- The home directory: the one that the variables name, or that of the account. -/
def homePath (w : World) : String := (w.environment.get? "HOME").getD w.accountHome

/-- The logger of the package: the one that is set, or the default one for the environment. -/
def currentLogger (w : World) : Log.Logger :=
  w.logger.getD (.default (w.environment.get? Log.levelVariable))

/-- The world after a use of the package's logger, which from then on is set. -/
def fixLogger (w : World) : World := { w with logger := some w.currentLogger }

/-- The world after a call of the package's logger, also after one that has failed. -/
def log (w : World) (level message : String) (extra : Option (Members Value)) : World :=
  let w := w.fixLogger
  { w with records := w.records ++ (w.currentLogger.record? level message extra).toList }

end World

namespace Action

/-- An action that is already decided. -/
def ofExcept {α : Type} (result : Except Failure α) : Action α :=
  match result with
  | .ok a => return a
  | .error failure => throw failure

/-- Logs by the logger of the package. -/
def log (level message : String) (extra : Option (Members Value)) : Action Unit := do
  let logger := (← get).currentLogger
  modify fun w => w.log level message extra
  match logger.refusal? level extra with
  | some failure => throw failure
  | none => return

end Action

end LayeredSettings
