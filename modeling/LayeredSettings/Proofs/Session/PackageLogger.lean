import LayeredSettings.Proofs.Session.Calls

/-!
# The logger of the package

The package has at most one logger at a time. One that is set stays until another is set. Where none
is set, the first use makes the default one, at the level that the variable names then; from there
on it stays like one that was set, whatever the variable names later. A call is a use even if its
level is not enabled, and operations that make no call are none.

* `usesBy_currentLogger`, `logger_step_of_uses`, `logger_step_of_not_uses` — one step;
* `logger_after`, `logger_after_of_isQuiet` — a run of steps;
* `keepsLogger` — which logger is used, over every run.
-/

namespace LayeredSettings

/-- Whether a step sets the logger, or sets that there is none. -/
def Step.SetsLogger (step : Step) : Prop := ∃ logger, step = .setLogger logger

theorem Step.records_change (step : Step) (w : World) : (step.change w).records = w.records := by
  cases step with
  | getLogger => rfl
  | _ => simp only [change]

theorem Step.logger_change {step : Step} (hset : ¬ step.SetsLogger) (hshow : step ≠ .getLogger)
    (w : World) : (step.change w).logger = w.logger := by
  cases step with
  | setLogger logger => exact absurd ⟨logger, rfl⟩ hset
  | getLogger => exact absurd rfl hshow
  | _ => simp only [change]

namespace Session

/-- Whether a step uses the logger of the package: it shows the logger, or it calls the logger, be
the level of the call enabled or not. -/
def Uses (s : Session) (step : Step) : Prop := step = .getLogger ∨ s.calls step ≠ []

/-- Whether it is the given logger that a step uses, if it uses one. -/
structure UsesBy (s : Session) (step : Step) (logger : Log.Logger) : Prop where
  /-- The records of the step are what this logger writes of its calls. -/
  records : (s.step step).1.records = logger.writtenAll (s.calls step)
  /-- The logger that the step shows is this one. -/
  shown : step = .getLogger → (s.step step).1.result = .ok (.logger logger)

variable {s : Session} {step : Step}

/-! ## One step -/

theorem usesBy_currentLogger (s : Session) (step : Step) :
    s.UsesBy step s.world.currentLogger := by
  constructor
  · have hrecords : (s.step step).1.records = (s.step step).2.world.records := rfl
    rw [hrecords, world_step, Step.records_change, World.records_logAll]
    rfl
  · rintro rfl
    rfl

theorem Uses.not_setsLogger (h : s.Uses step) : ¬ step.SetsLogger := by
  rintro ⟨logger, rfl⟩
  rcases h with h | h
  · cases h
  · exact h rfl

/-- The logger that is used is that of the package from then on. -/
theorem logger_step_of_uses (h : s.Uses step) :
    (s.step step).2.world.logger = some s.world.currentLogger := by
  by_cases hshow : step = .getLogger
  · subst hshow
    rfl
  · have hcalls : s.calls step ≠ [] := h.resolve_left hshow
    rw [world_step, Step.logger_change h.not_setsLogger hshow, World.logger_logAll _ hcalls]
    rfl

theorem logger_step_of_not_uses (h : ¬ s.Uses step) (hset : ¬ step.SetsLogger) :
    (s.step step).2.world.logger = s.world.logger := by
  rw [Uses, not_or, not_not] at h
  rw [world_step, Step.logger_change hset h.1, h.2, World.logAll_nil]
  rfl

theorem currentLogger_of_some {logger : Log.Logger} (h : s.world.logger = some logger) :
    s.world.currentLogger = logger := by
  rw [World.currentLogger, h, Option.getD_some]

/-- A logger stays that of the package, as long as no step sets another. -/
theorem logger_step_of_some {logger : Log.Logger} (h : s.world.logger = some logger)
    (hset : ¬ step.SetsLogger) : (s.step step).2.world.logger = some logger := by
  by_cases huses : s.Uses step
  · rw [logger_step_of_uses huses, currentLogger_of_some h]
  · rw [logger_step_of_not_uses huses hset, h]

/-! ## Runs -/

/-- The session after some steps. -/
def after (s : Session) (steps : List Step) : Session := (s.run steps).2

@[simp] theorem after_nil (s : Session) : s.after [] = s := rfl

@[simp] theorem after_cons (s : Session) (step : Step) (steps : List Step) :
    s.after (step :: steps) = (s.step step).2.after steps := rfl

theorem logger_after {logger : Log.Logger} (h : s.world.logger = some logger) {steps : List Step}
    (hsteps : ∀ step ∈ steps, ¬ step.SetsLogger) : (s.after steps).world.logger = some logger := by
  induction steps generalizing s with
  | nil => exact h
  | cons step rest ih =>
    exact ih (logger_step_of_some h (hsteps step List.mem_cons_self))
      fun other hother => hsteps other (List.mem_cons_of_mem step hother)

/-- Steps that neither set the logger nor use it, each in the session that those before it leave. -/
def IsQuiet (s : Session) : List Step → Prop
  | [] => True
  | step :: rest => (¬ step.SetsLogger ∧ ¬ s.Uses step) ∧ (s.step step).2.IsQuiet rest

theorem logger_after_of_isQuiet {steps : List Step} (h : s.IsQuiet steps) :
    (s.after steps).world.logger = s.world.logger := by
  induction steps generalizing s with
  | nil => rfl
  | cons step rest ih =>
    obtain ⟨⟨hset, huses⟩, hrest⟩ := h
    rw [after_cons, ih hrest, logger_step_of_not_uses huses hset]

/-- To read a file is a use unless it is a sectioned file with a text or a YAML file without one. -/
theorem uses_load_iff {location name : String} :
    s.Uses (.load location name) ↔
      (SettingsFile.formatOf location = .yaml ↔
        (s.world.files.textOf? location).isSome = true) := by
  have hcalls : s.Uses (.load location name) ↔
      SettingsFile.loadCalls s.world.files location ≠ [] := by
    simp [Uses, calls]
  rw [hcalls, SettingsFile.loadCalls]
  cases SettingsFile.formatOf location with
  | yaml => cases s.world.files.textOf? location <;> simp
  | sectioned => cases s.world.files.textOf? location <;> simp

/-- Which logger is used in the runs that go on from a session. -/
structure KeepsLogger (s : Session) : Prop where
  /-- A logger that is set is used by every step until the next one is set. -/
  set : ∀ (logger : Log.Logger) (steps : List Step), (∀ step ∈ steps, ¬ step.SetsLogger) →
    ∀ next, (s.after (.setLogger (some logger) :: steps)).UsesBy next logger
  /-- To set that there is none leaves none. -/
  unset : (s.after [.setLogger none]).world.logger = none
  /-- Where there is none, steps that do not use one leave none. -/
  quiet : s.world.logger = none → ∀ steps, s.IsQuiet steps → (s.after steps).world.logger = none
  /-- The first step after them that uses one uses the default logger, at the level that the
  variable names then; and so does every step until a logger is set. -/
  first : s.world.logger = none → ∀ quiet, s.IsQuiet quiet →
    ∀ first, (s.after quiet).Uses first →
      (s.after quiet).UsesBy first
        (.default ((s.after quiet).world.environment.get? Log.levelVariable)) ∧
      ∀ steps, (∀ step ∈ steps, ¬ step.SetsLogger) → ∀ next,
        ((s.after quiet).after (first :: steps)).UsesBy next
          (.default ((s.after quiet).world.environment.get? Log.levelVariable))
  /-- To read a sectioned file that is there is no use, and neither is it to miss a YAML file. -/
  load : ∀ location name, s.Uses (.load location name) ↔
    (SettingsFile.formatOf location = .yaml ↔ (s.world.files.textOf? location).isSome = true)

/-- Which logger is used is decided by the last step that set one, and where none is set by the
variable at the first use, over every session and every run. -/
theorem keepsLogger (s : Session) : s.KeepsLogger := by
  refine ⟨?_, rfl, ?_, ?_, fun _ _ => uses_load_iff⟩
  · intro logger steps hsteps next
    have hset : (s.step (.setLogger (some logger))).2.world.logger = some logger := rfl
    have hafter := logger_after hset hsteps
    have hnext := usesBy_currentLogger (s.after (.setLogger (some logger) :: steps)) next
    rwa [after_cons, currentLogger_of_some hafter] at hnext
  · intro hnone steps hquiet
    rw [logger_after_of_isQuiet hquiet, hnone]
  · intro hnone quiet hquiet first hfirst
    have hlogger : (s.after quiet).world.currentLogger =
        .default ((s.after quiet).world.environment.get? Log.levelVariable) := by
      rw [World.currentLogger, logger_after_of_isQuiet hquiet, hnone, Option.getD_none]
    rw [← hlogger]
    refine ⟨usesBy_currentLogger _ first, fun steps hsteps next => ?_⟩
    have hafter := logger_after (logger_step_of_uses hfirst) hsteps
    have hnext := usesBy_currentLogger ((s.after quiet).after (first :: steps)) next
    rwa [after_cons, currentLogger_of_some hafter] at hnext

/-- A session without a logger, with a sectioned file and a YAML file. -/
def unlogged : Session :=
  { world := { World.ofFile "c" [91, 115, 93] with
      files := { workingDirectory := []
                 nodes := [(["c"], .file [91, 115, 93]), (["c.yaml"], .file [97, 58, 32, 49])] } }
    files := [] }

/-- Reads the sectioned file, and then names a level. -/
def unloggedSteps : List Step :=
  [.load "c" "c", .setVariable Log.levelVariable "ERROR"]

/-- To read the sectioned file makes no logger. To read the YAML file then makes one at the level
that is named, although nothing is written, and a level that is named later does not change it. -/
theorem keepsLogger_unlogged :
    unlogged.KeepsLogger ∧ unlogged.IsQuiet unloggedSteps ∧
      (unlogged.after unloggedSteps).world.logger = none ∧
      ((unlogged.after unloggedSteps).step (.load "c.yaml" "y")).1.records.length = 0 ∧
      (((unlogged.after unloggedSteps).after
        [.load "c.yaml" "y", .setVariable Log.levelVariable "trace"]).step .getLogger).1.result =
          .ok (.logger { level := "error" }) := by
  have hkeeps := keepsLogger unlogged
  have hload : ¬ unlogged.Uses (.load "c" "c") := by
    rw [hkeeps.load]
    decide +kernel
  have hquiet : unlogged.IsQuiet unloggedSteps := by
    refine ⟨⟨?_, hload⟩, ⟨?_, ?_⟩, trivial⟩
    · rintro ⟨logger, h⟩
      cases h
    · rintro ⟨logger, h⟩
      cases h
    · simp [Uses, calls]
  have hworld : (unlogged.after unloggedSteps).world =
      { unlogged.world with
        environment := unlogged.world.environment.set Log.levelVariable "ERROR" } := by
    have hnone : unlogged.calls (.load "c" "c") = [] := by
      rw [Uses, not_or, not_not] at hload
      exact hload.2
    rw [unloggedSteps, after_cons, after_cons, after_nil, world_step, fresh, world_step, hnone]
    rfl
  have huses : (unlogged.after unloggedSteps).Uses (.load "c.yaml" "y") := by
    rw [(keepsLogger _).load, hworld]
    decide +kernel
  have hdefault : Log.Logger.default
      ((unlogged.after unloggedSteps).world.environment.get? Log.levelVariable) =
        { level := "error" } := by
    rw [hworld]
    decide +kernel
  obtain ⟨hfirst, hlater⟩ := hkeeps.first rfl unloggedSteps hquiet _ huses
  rw [hdefault] at hfirst hlater
  have hsteps : ∀ step ∈ [Step.setVariable Log.levelVariable "trace"], ¬ step.SetsLogger := by
    simp [Step.SetsLogger]
  refine ⟨hkeeps, hquiet, hkeeps.quiet rfl unloggedSteps hquiet, ?_, ?_⟩
  · rw [hfirst.records, calls, hworld]
    decide +kernel
  · exact (hlater _ hsteps .getLogger).shown rfl

end Session

end LayeredSettings
