import LayeredSettings.Proofs.Setting.Layering
import LayeredSettings.Proofs.SettingsFile.Loading
import LayeredSettings.Proofs.SettingsFile.Switch
import LayeredSettings.Session

/-!
# Which operations log

The calls of the logger that each operation makes, as functions of what is asked for and of the
variables and files there are. A call that its level suppresses is made as well. The logger plays a
part only where a call fails and the failure is logged in turn.

* `SettingsFile.reports_get` — asking a file;
* `Setting.makes_resolve`, `Hint.reports_follow` — resolving a setting and finding the file to use;
* `Session.world_step` — the steps of a session.
-/

namespace LayeredSettings

open LayeredSettings.Action

/-! ## Files -/

namespace SettingsFile

/-- The calls of asking a file. -/
def getCalls (file : SettingsFile) (key : Key) : List Log.Call :=
  match key, file.content with
  | .switch key, .yaml (some document) =>
    endCalls file.location key.switch document (document.walk key.path)
  | _, _ => []

/-- What a file answers, unless a call fails. -/
def answer (file : SettingsFile) (key : Key) : Except Failure Value :=
  match key, file.content with
  | .option key, .sectioned document => document.get key
  | .switch key, .yaml (some document) => reply key.switch (document.walk key.path)
  | _, _ => .error (.of (.unsupported key.kind file.location))

/-- Asking a file. -/
theorem reports_get (file : SettingsFile) (key : Key) (w : World) :
    (file.get key).Reports w (file.getCalls key) (file.answer key) := by
  obtain ⟨location, content⟩ := file
  cases key with
  | option key =>
    cases content with
    | sectioned document => exact reports_nil_of_run (run_ofExcept _ w)
    | yaml document => rfl
  | switch key =>
    rcases content with document | (_ | document)
    · rfl
    · rfl
    · exact reports_get_switch rfl w
  | other kind => rfl

/-- What asking a file comes to with a logger, whose calls may fail. -/
def asked (file : SettingsFile) (key : Key) (logger : Log.Logger) : Except Failure Value :=
  match logger.refusalAmong? (file.getCalls key) with
  | some failure => .error failure
  | none => file.answer key

theorem run_get (file : SettingsFile) (key : Key) (w : World) :
    (file.get key).run w = (file.asked key w.currentLogger, w.logAll (file.getCalls key)) :=
  file.reports_get key w

end SettingsFile

/-! ## Keys -/

theorem makes_applyTransform (transform : Option Transform) (v : Value) (w : World) :
    Makes (applyTransform transform v) w [] :=
  makes_nil_of_run (run_applyTransform transform v w)

theorem OptionKey.makes_readFromEnvironment (key : OptionKey) (transform : Option Transform)
    (w : World) : Makes (key.readFromEnvironment transform) w [] :=
  makes_nil_of_run (key.run_readFromEnvironment transform w)

/-- An option is read without a call, also from a file that cannot answer it. -/
theorem OptionKey.makes_readFromFile (key : OptionKey) (file : SettingsFile)
    (transform : Option Transform) (w : World) : Makes (key.readFromFile file transform) w [] := by
  have hget : Makes (file.get (.option key)) w [] := (file.reports_get (.option key) w).makes
  refine (hget.bind fun v => makes_applyTransform transform v w).tryCatch fun failure => ?_
  split
  · exact makes_pure _
  · exact makes_throw _

namespace SwitchKey

/-- What reading a switch comes to before a failure is taken for a missing value. -/
def attempt (key : SwitchKey) (file : SettingsFile) (transform : Option Transform)
    (logger : Log.Logger) (files : FileTree) : Except Failure Value :=
  (file.asked (.switch key) logger).bind fun v =>
    if v.truthy then transformed transform files v else .ok .absent

/-- The calls of reading a switch: those of asking the file, and one more after a failure. -/
def readCalls (key : SwitchKey) (file : SettingsFile) (transform : Option Transform)
    (logger : Log.Logger) (files : FileTree) : List Log.Call :=
  file.getCalls (.switch key) ++
    match key.attempt file transform logger files with
    | .ok _ => []
    | .error failure =>
      [⟨"debug", "Could not read switch " ++ key.switch ++ " from " ++ file.location,
        some [("error", .str failure.text)]⟩]

theorem run_attempt (key : SwitchKey) (file : SettingsFile) (transform : Option Transform)
    (w : World) :
    (file.get (.switch key) >>= fun v =>
        if v.truthy then applyTransform transform v else pure .absent).run w =
      (key.attempt file transform w.currentLogger w.files,
        w.logAll (file.getCalls (.switch key))) := by
  rw [run_bind, file.run_get, attempt]
  cases file.asked (.switch key) w.currentLogger with
  | error failure => rfl
  | ok v =>
    dsimp only [Except.bind]
    split
    · rw [run_applyTransform, World.files_logAll]
    · rfl

theorem makes_readFromFile (key : SwitchKey) (file : SettingsFile) (transform : Option Transform)
    (w : World) :
    Makes (key.readFromFile file transform) w
      (key.readCalls file transform w.currentLogger w.files) := by
  have hrun := key.run_attempt file transform w
  unfold readFromFile readCalls
  cases hattempt : key.attempt file transform w.currentLogger w.files with
  | error failure =>
    rw [hattempt] at hrun
    exact makes_tryCatch_of_error hrun (makes_log _ _ _ _).answer
  | ok v =>
    rw [hattempt] at hrun
    rw [List.append_nil]
    exact makes_tryCatch_of_ok hrun

end SwitchKey

/-! ## Settings -/

namespace Setting

/-- The calls of looking a setting up in a file. A document without members is not asked. -/
def fileCalls (s : Setting) (file : SettingsFile) (w : World) : List Log.Call :=
  match file.content, s.switch with
  | .yaml (some document), some key =>
    if document.members.isEmpty then []
    else key.readCalls file s.transform w.currentLogger w.files
  | _, _ => []

/-- The calls of resolving a setting. The file is asked only where the variable gives nothing. -/
def calls (s : Setting) (file : Option SettingsFile) (w : World) : List Log.Call :=
  match (s.option.valueInEnvironment s.transform w).map (Resolved.of? .environment), file with
  | .ok none, some file => s.fileCalls file w
  | _, _ => []

theorem makes_resolveInFile (s : Setting) (file : SettingsFile) (w : World) :
    Makes (s.resolveInFile file) w (s.fileCalls file w) := by
  unfold resolveInFile fileCalls
  rcases file.content with document | (_ | document)
  · exact (s.option.makes_readFromFile file s.transform w).answer
  · exact makes_pure _
  · cases s.switch with
    | none => exact makes_pure _
    | some key =>
      dsimp only
      split
      · exact makes_pure _
      · exact (key.makes_readFromFile file s.transform w).answer

theorem makes_resolve (s : Setting) (file : Option SettingsFile) (w : World) :
    Makes (s.resolve file) w (s.calls file w) := by
  have hrun := s.option.run_readFromEnvironment s.transform w
  unfold resolve calls
  cases hvalue : s.option.valueInEnvironment s.transform w with
  | error failure =>
    rw [hvalue] at hrun
    exact makes_bind_of_error hrun
  | ok v =>
    rw [hvalue, ← w.logAll_nil] at hrun
    refine makes_bind_of_ok hrun ?_
    rw [World.logAll_nil, Except.map]
    cases Resolved.of? .environment v with
    | some resolved => exact makes_pure _
    | none =>
      cases file with
      | none => exact makes_pure _
      | some file => exact s.makes_resolveInFile file w

/-- Logging changes nothing of what the calls depend on. -/
@[simp] theorem calls_logAll (s : Setting) (file : Option SettingsFile) (w : World)
    (before : List Log.Call) : s.calls file (w.logAll before) = s.calls file w := by
  unfold calls fileCalls OptionKey.valueInEnvironment
  simp only [World.files_logAll, World.environment_logAll, World.currentLogger_logAll]

theorem makes_read (s : Setting) (file : Option SettingsFile) (w : World) :
    Makes (s.read file) w (s.calls file w) := by
  refine (s.makes_resolve file w).bind fun resolved => ?_
  split
  · exact makes_pure _
  · exact makes_pure _

end Setting

/-! ## The file to use -/

/-- The calls of using a place. It is announced before its file is read. -/
def Candidate.calls (files : FileTree) (c : Candidate) : List Log.Call :=
  ⟨"info", c.source.label ++ " " ++ c.path, none⟩ :: SettingsFile.loadCalls files c.path

/-- The calls of a search: those of the place that is used, if there is one. -/
def Search.calls (search : Search) (w : World) : List Log.Call :=
  (Candidate.firstExisting? w.files (search.candidates w)).elim [] (Candidate.calls w.files)

/-- What a search comes to, unless a call fails. -/
def Search.found (search : Search) (w : World) : Except Failure (Option SettingsFile) :=
  match Candidate.firstExisting? w.files (search.candidates w) with
  | some c => (SettingsFile.loaded w.files c.path).map some
  | none => .ok none

theorem Search.reports_run (search : Search) (w : World) :
    search.run.Reports w (search.calls w) (search.found w) := by
  rw [run, Reports, run_get_bind, calls, found]
  cases Candidate.firstExisting? w.files (search.candidates w) with
  | none => rfl
  | some c =>
    exact reports_log_bind Log.Logger.hasEnd_none ((SettingsFile.reports_load c.path _).answer some)

/-- The calls of finding the file to use. -/
def Hint.calls (search : Search) (w : World) : Hint → List Log.Call
  | .file _ => []
  | .path location => SettingsFile.loadCalls w.files location
  | .nothing => search.calls w

/-- What finding the file to use comes to, unless a call fails. -/
def Hint.found (search : Search) (w : World) : Hint → Except Failure (Option SettingsFile)
  | .file known => .ok (some known)
  | .path location => (SettingsFile.loaded w.files location).map some
  | .nothing => search.found w

theorem Hint.reports_follow (search : Search) (hint : Hint) (w : World) :
    (hint.follow search).Reports w (hint.calls search w) (hint.found search w) := by
  cases hint with
  | file known => exact reports_pure _ w
  | path location => exact (SettingsFile.reports_load location w).answer some
  | nothing => exact search.reports_run w

/-! ## Steps -/

/-- What a step does to the world itself. -/
def Step.change : Step → World → World
  | .setVariable name value, w => { w with environment := w.environment.set name value }
  | .unsetVariable name, w => { w with environment := w.environment.unset name }
  | .write path node, w => { w with files := w.files.write path node }
  | .remove path, w => { w with files := w.files.remove path }
  | .setLogger logger, w => { w with logger }
  | .getLogger, w => w.fixLogger
  | _, w => w

namespace Session

/-- The calls that a step makes. -/
def calls (s : Session) : Step → List Log.Call
  | .load location _ => SettingsFile.loadCalls s.world.files location
  | .get file key =>
    match s.file? file with
    | some file => file.getCalls key
    | none => []
  | .readKey file key transform =>
    match s.file? file, key with
    | some file, .switch key =>
      key.readCalls file transform s.world.currentLogger s.world.files
    | _, _ => []
  | .resolve file setting => setting.calls (s.file? file) s.world
  | .read file setting => setting.calls (s.file? file) s.world
  | .group file settings =>
    settings.flatMap fun entry => entry.2.calls (s.file? file) s.world
  | .locate hint search _ => (s.hint hint).calls search s.world
  | .log level message extra => [⟨level, message, extra⟩]
  | _ => []

theorem resolveAll_logs (file : Option SettingsFile) (settings : Members Setting) (w : World) :
    ((resolveAll file settings).run w).2 =
      w.logAll (settings.flatMap fun entry => entry.2.calls file w) := by
  induction settings generalizing w with
  | nil => rfl
  | cons entry rest ih =>
    have hrun : ((resolveAll file (entry :: rest)).run w).2 =
        ((resolveAll file rest).run ((entry.2.resolve file).run w).2).2 := rfl
    have hfirst : ((entry.2.resolve file).run w).2 = w.logAll (entry.2.calls file w) :=
      entry.2.makes_resolve file w
    rw [hrun, hfirst, ih, List.flatMap_cons, World.logAll_append]
    simp only [Setting.calls_logAll]

/-- The world that a step begins in, whose records are to be those of the step. -/
def fresh (s : Session) : World := { s.world with records := [] }

theorem hint_calls_fresh (s : Session) (search : Search) (hint : Hint) :
    hint.calls search s.fresh = hint.calls search s.world := by
  have hcandidates : search.candidates s.fresh = search.candidates s.world := rfl
  have hfiles : s.fresh.files = s.world.files := rfl
  cases hint with
  | file known => rfl
  | path location => rfl
  | nothing => simp only [Hint.calls, Search.calls, hcandidates, hfiles]

/-- All that a step does to the world: it makes its calls, and then changes what it is there to
change. -/
theorem world_step (s : Session) (step : Step) :
    (s.step step).2.world = step.change (s.fresh.logAll (s.calls step)) := by
  have hworld : (s.step step).2.world = ((s.act step).run s.fresh).2 := rfl
  rw [hworld]
  cases step with
  | load location name =>
    simp only [act, calls, Step.change]
    exact (SettingsFile.reports_load location s.fresh).makes.answer
  | get file key =>
    simp only [act, calls, Step.change]
    cases s.file? file with
    | none => rfl
    | some file => exact (file.reports_get key s.fresh).makes.answer
  | readKey file key transform =>
    simp only [act, calls, Step.change]
    cases s.file? file with
    | none => rfl
    | some file =>
      cases key with
      | option key => exact (key.makes_readFromFile file transform s.fresh).answer
      | switch key => exact (key.makes_readFromFile file transform s.fresh).answer
      | other kind => rfl
  | readEnvironment key transform =>
    simp only [act, calls, Step.change]
    exact (key.makes_readFromEnvironment transform s.fresh).answer
  | resolve file setting =>
    simp only [act, calls, Step.change]
    exact (setting.makes_resolve (s.file? file) s.fresh).answer
  | read file setting =>
    simp only [act, calls, Step.change]
    exact (setting.makes_read (s.file? file) s.fresh).answer
  | group file settings =>
    simp only [act, calls, Step.change]
    exact resolveAll_logs (s.file? file) settings s.fresh
  | locate hint search name =>
    simp only [act, calls, Step.change, ← hint_calls_fresh]
    cases s.hint hint with
    | file known => rfl
    | path location => exact (Hint.reports_follow search (.path location) s.fresh).makes.answer
    | nothing => exact (Hint.reports_follow search .nothing s.fresh).makes.answer
  | candidates search =>
    simp only [act, calls, Step.change]
    exact makes_get_bind (makes_pure _)
  | log level message extra =>
    simp only [act, calls, Step.change]
    exact (makes_log level message extra s.fresh).answer
  | document file => rfl
  | setVariable name value => rfl
  | unsetVariable name => rfl
  | write path node => rfl
  | remove path => rfl
  | setLogger logger => rfl
  | getLogger => rfl

end Session

end LayeredSettings
