import LayeredSettings.Proofs.World.Action

/-!
# Calls of the logger

An operation that only reads does nothing to a world but call the logger. Which records the calls
leave is up to the logger, and so is whether they leave any; the first one makes the logger that was
in use the logger of the package. A call may fail, and then it is the last one.

* `World.logger_logAll`, `World.records_logAll` — what calls do to a world;
* `Makes` — an action that makes given calls and does nothing else;
* `Reports` — an action that comes to a given result too, unless one of its calls fails;
* `makes_bind_of_ok`, `makes_bind_of_error` — calls of actions that are composed;
* `reports_log`, `reports_log_bind` — calls alone, and before other steps.
-/

namespace LayeredSettings

/-- One call of a logger. -/
structure Log.Call where
  level : String
  message : String
  extra : Option (Members Value)

/-- What some calls of a logger write. -/
def Log.Logger.writtenAll (logger : Logger) (calls : List Call) : List Record :=
  calls.flatMap fun call => logger.written call.level call.message call.extra

/-- The failure of the first of some calls that fails, if one does. -/
def Log.Logger.refusalAmong? (logger : Logger) (calls : List Call) : Option Failure :=
  calls.findSome? fun call => logger.refusal? call.level call.extra

theorem Log.Logger.refusalAmong?_nil (logger : Logger) : logger.refusalAmong? [] = none := rfl

namespace World

/-- The world after some calls of the package's logger. -/
def logAll (w : World) (calls : List Log.Call) : World :=
  calls.foldl (fun w call => w.log call.level call.message call.extra) w

@[simp] theorem logAll_nil (w : World) : w.logAll [] = w := rfl

@[simp] theorem logAll_cons (w : World) (call : Log.Call) (calls : List Log.Call) :
    w.logAll (call :: calls) = (w.log call.level call.message call.extra).logAll calls := rfl

theorem logAll_append (w : World) (first second : List Log.Call) :
    w.logAll (first ++ second) = (w.logAll first).logAll second :=
  List.foldl_append

/-- What no call changes, no run of calls changes. -/
theorem view_logAll {α : Type} {view : World → α}
    (h : ∀ w level message extra, view (World.log w level message extra) = view w) (w : World)
    (calls : List Log.Call) : view (w.logAll calls) = view w := by
  induction calls generalizing w with
  | nil => rfl
  | cons call rest ih => rw [logAll_cons, ih, h]

@[simp] theorem files_logAll (w : World) (calls : List Log.Call) :
    (w.logAll calls).files = w.files := view_logAll files_log w calls

@[simp] theorem environment_logAll (w : World) (calls : List Log.Call) :
    (w.logAll calls).environment = w.environment := view_logAll environment_log w calls

@[simp] theorem currentLogger_logAll (w : World) (calls : List Log.Call) :
    (w.logAll calls).currentLogger = w.currentLogger := view_logAll currentLogger_log w calls

/-- Any call makes the logger in use that of the package. -/
theorem logger_logAll (w : World) {calls : List Log.Call} (h : calls ≠ []) :
    (w.logAll calls).logger = some w.currentLogger := by
  induction calls generalizing w with
  | nil => exact absurd rfl h
  | cons call rest ih =>
    rw [logAll_cons]
    by_cases hrest : rest = []
    · rw [hrest]
      rfl
    · rw [ih _ hrest, currentLogger_log]

/-- All calls write by the same logger. -/
theorem records_logAll (w : World) (calls : List Log.Call) :
    (w.logAll calls).records = w.records ++ w.currentLogger.writtenAll calls := by
  induction calls generalizing w with
  | nil => exact (List.append_nil _).symm
  | cons call rest ih =>
    rw [logAll_cons, ih, records_log, currentLogger_log, List.append_assoc]
    rfl

end World

namespace Action

variable {α β : Type}

/-- Whether all that an action does to a world is to make some calls of the logger. -/
def Makes (action : Action α) (w : World) (calls : List Log.Call) : Prop :=
  (action.run w).2 = w.logAll calls

variable {w : World} {calls : List Log.Call}

theorem makes_pure (result : α) : Makes (pure result) w [] := rfl

theorem makes_throw (failure : Failure) : Makes (throw failure : Action α) w [] := rfl

/-- An action that leaves the world as it is makes no calls. -/
theorem makes_nil_of_run {action : Action α} {result : Except Failure α}
    (h : action.run w = (result, w)) : Makes action w [] := by
  rw [Makes, h]
  rfl

/-- Looking at the world is no call. -/
theorem makes_get_bind {next : World → Action β} (h : Makes (next w) w calls) :
    Makes ((get : Action World) >>= next) w calls := h

/-- A success goes on with the calls of what is done next. -/
theorem makes_bind_of_ok {action : Action α} {next : α → Action β} {result : α}
    {more : List Log.Call} (h : action.run w = (.ok result, w.logAll calls))
    (hnext : Makes (next result) (w.logAll calls) more) :
    Makes (action >>= next) w (calls ++ more) := by
  rw [Makes, run_bind, h, World.logAll_append]
  exact hnext

/-- A failure ends with the calls that were made by then. -/
theorem makes_bind_of_error {action : Action α} {next : α → Action β} {failure : Failure}
    (h : action.run w = (.error failure, w.logAll calls)) : Makes (action >>= next) w calls := by
  rw [Makes, run_bind, h]

theorem makes_log (level message : String) (extra : Option (Members Value)) (w : World) :
    Makes (log level message extra) w [⟨level, message, extra⟩] := by
  rw [Makes, run_log]
  rfl

/-- What makes no calls adds none to those that were made before. -/
theorem Makes.bind {action : Action α} {next : α → Action β} (h : Makes action w calls)
    (hnext : ∀ result, Makes (next result) (w.logAll calls) []) :
    Makes (action >>= next) w calls := by
  rw [Makes] at h
  rw [Makes, run_bind]
  rcases hrun : action.run w with ⟨failure | result, left⟩
  · rw [hrun] at h
    exact h
  · rw [hrun] at h
    obtain rfl := h
    exact hnext result

/-- To hand a result on is no call. -/
theorem Makes.answer {action : Action α} {f : α → β} (h : Makes action w calls) :
    Makes (action >>= fun result => pure (f result)) w calls :=
  h.bind fun _ => makes_pure _

theorem Makes.tryCatch {action : Action α} {handle : Failure → Action α}
    (h : Makes action w calls) (hhandle : ∀ failure, Makes (handle failure) (w.logAll calls) []) :
    Makes (tryCatch action handle) w calls := by
  rw [Makes] at h
  rw [Makes, run_tryCatch]
  rcases hrun : action.run w with ⟨failure | result, left⟩
  · rw [hrun] at h
    obtain rfl := h
    exact hhandle failure
  · rw [hrun] at h
    exact h

/-- A failure goes on with the calls of what handles it. -/
theorem makes_tryCatch_of_error {action : Action α} {handle : Failure → Action α}
    {failure : Failure} {more : List Log.Call}
    (h : action.run w = (.error failure, w.logAll calls))
    (hhandle : Makes (handle failure) (w.logAll calls) more) :
    Makes (tryCatch action handle) w (calls ++ more) := by
  rw [Makes, run_tryCatch, h, World.logAll_append]
  exact hhandle

theorem makes_tryCatch_of_ok {action : Action α} {handle : Failure → Action α} {result : α}
    (h : action.run w = (.ok result, w.logAll calls)) :
    Makes (tryCatch action handle) w calls := by
  rw [Makes, run_tryCatch, h]

/-! ## Results -/

/-- Whether an action makes some calls of the logger and comes to a result, unless one of the calls
fails. -/
def Reports (action : Action α) (w : World) (calls : List Log.Call) (result : Except Failure α) :
    Prop :=
  action.run w =
    (match w.currentLogger.refusalAmong? calls with
      | some failure => .error failure
      | none => result,
    w.logAll calls)

variable {result : Except Failure α}

theorem Reports.makes {action : Action α} (h : Reports action w calls result) :
    Makes action w calls :=
  congrArg Prod.snd h

theorem reports_pure (a : α) (w : World) : Reports (pure a) w [] (.ok a) := rfl

/-- A run that leaves the world as it is makes no calls. -/
theorem reports_nil_of_run {action : Action α} (h : action.run w = (result, w)) :
    Reports action w [] result := h

/-- To hand a result on is no call. -/
theorem Reports.answer {action : Action α} (h : Reports action w calls result) (f : α → β) :
    Reports (action >>= fun a => pure (f a)) w calls (result.map f) := by
  rw [Reports, run_bind, h]
  cases w.currentLogger.refusalAmong? calls with
  | some failure => rfl
  | none =>
    cases result with
    | ok a => rfl
    | error failure => rfl

/-- A call comes to nothing, unless it fails. -/
theorem reports_log (level message : String) (extra : Option (Members Value)) (w : World) :
    Reports (log level message extra) w [⟨level, message, extra⟩] (.ok ()) := by
  rw [Reports, run_log, Log.Logger.refusalAmong?, List.findSome?_cons]
  cases w.currentLogger.refusal? level extra with
  | some failure => rfl
  | none => rfl

/-- What comes after a call that does not fail goes on with its own calls and its own result. -/
theorem reports_log_bind {next : Action α} {level message : String}
    {extra : Option (Members Value)} (hend : w.currentLogger.hasEnd extra = true)
    (h : Reports next (w.log level message extra) calls result) :
    Reports (log level message extra >>= fun _ => next) w (⟨level, message, extra⟩ :: calls)
      result := by
  rw [Reports, World.currentLogger_log] at h
  rw [Reports, run_bind, run_log_of_hasEnd hend, Log.Logger.refusalAmong?, List.findSome?_cons,
    Log.Logger.refusal?_eq_none hend]
  exact h

end Action

end LayeredSettings
