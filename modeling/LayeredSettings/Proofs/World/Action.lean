import LayeredSettings.Proofs.Log.Refusal
import LayeredSettings.World.Basic

/-!
# Outcomes of actions

The equations by which an action is run in a world, one for each way to build an action, and the
outcome of an action: its result or its failure, without what it has logged on the way.

* `run_bind`, `run_tryCatch` — a run goes on in the world that the part before it has left, and a
  failure is handled there;
* `run_log` — a call of the logger leaves variables and files as they are (`World.files_log`,
  `World.environment_log`), and writes at most one record (`World.records_log`); it fails if the
  logger refuses it, and not otherwise.
-/

namespace LayeredSettings

/-- What a call of a logger writes: one record, if its level is enabled and what is to be shown has
an end. -/
def Log.Logger.written (logger : Logger) (level message : String)
    (extra : Option (Members Value)) : List Record :=
  if logger.isEnabled level && logger.hasEnd extra then
    [{ level, logger := logger.name, message
       extra := if logger.redactSensitive then extra.map redactMembers else extra }]
  else []

namespace World

@[simp] theorem files_log (w : World) (level message : String) (extra : Option (Members Value)) :
    (w.log level message extra).files = w.files := rfl

@[simp] theorem environment_log (w : World) (level message : String)
    (extra : Option (Members Value)) :
    (w.log level message extra).environment = w.environment := rfl

/-- The logger that has been used is used again. -/
@[simp] theorem currentLogger_log (w : World) (level message : String)
    (extra : Option (Members Value)) :
    (w.log level message extra).currentLogger = w.currentLogger := rfl

theorem records_log (w : World) (level message : String) (extra : Option (Members Value)) :
    (w.log level message extra).records =
      w.records ++ w.currentLogger.written level message extra := by
  have hrecords : (w.log level message extra).records =
      w.records ++ (w.currentLogger.record? level message extra).toList := rfl
  rw [hrecords, Log.Logger.record?, Log.Logger.written]
  split
  · rfl
  · rfl

end World

namespace Action

variable {α β : Type}

/-- The result or the failure of an action in a world. -/
def outcome (action : Action α) (w : World) : Except Failure α := (action.run w).1

theorem run_log (level message : String) (extra : Option (Members Value)) (w : World) :
    (log level message extra).run w =
      (match w.currentLogger.refusal? level extra with
        | some failure => .error failure
        | none => .ok (),
      w.log level message extra) := by
  have hrun : (log level message extra).run w =
      (match w.currentLogger.refusal? level extra with
        | some failure => (throw failure : Action Unit)
        | none => pure ()).run (w.log level message extra) := rfl
  rw [hrun]
  cases w.currentLogger.refusal? level extra with
  | some failure => rfl
  | none => rfl

/-- A call that can be shown to its end does not fail. -/
theorem run_log_of_hasEnd {level message : String} {extra : Option (Members Value)} {w : World}
    (h : w.currentLogger.hasEnd extra = true) :
    (log level message extra).run w = (.ok (), w.log level message extra) := by
  rw [run_log, Log.Logger.refusal?_eq_none h]

theorem run_ofExcept (result : Except Failure α) (w : World) :
    (ofExcept result).run w = (result, w) := by
  cases result with
  | ok a => rfl
  | error failure => rfl

/-- A step goes on from the result of the one before it, in the world that this one has left. -/
theorem run_bind (action : Action α) (next : α → Action β) (w : World) :
    (action >>= next).run w =
      match action.run w with
      | (.ok a, w) => (next a).run w
      | (.error failure, w) => (.error failure, w) := by
  have hbind : (action >>= next).run w =
      ExceptT.bindCont next (action.run w).1 (action.run w).2 := rfl
  rw [hbind]
  obtain ⟨result, w'⟩ := action.run w
  cases result with
  | ok a => rfl
  | error failure => rfl

/-- A failure is handled in the world that the action has left. -/
theorem run_tryCatch (action : Action α) (handle : Failure → Action α) (w : World) :
    (tryCatch action handle : Action α).run w =
      match action.run w with
      | (.ok a, w) => (.ok a, w)
      | (.error failure, w) => (handle failure).run w := by
  change (ExceptT.tryCatch action handle).run w = _
  unfold ExceptT.tryCatch ExceptT.run ExceptT.mk
  simp only [bind, StateT.bind]
  rcases hrun : action w with ⟨a | failure, w'⟩
  · rfl
  · rfl

/-- Reading the world leaves it as it is. -/
theorem run_get_bind (next : World → Action β) (w : World) :
    ((get : Action World) >>= next).run w = (next w).run w := rfl

end Action

end LayeredSettings
