import LayeredSettings.Setting.Resolution
import LayeredSettings.SettingsFile.Search

/-!
# Sessions

A session is a run of steps in a world. Steps read files and bind them to names, look settings up,
and change the world between. Each step has an outcome and leaves the records that it logged.
-/

namespace LayeredSettings

/-- What is known of the file to use, as a step says it. -/
inductive StepHint where
  | bound (name : String)
  | path (path : String)
  | nothing

/-- The steps of a session. -/
inductive Step where
  /-- Reads a file and binds it. -/
  | load (location name : String)
  /-- Shows a file. -/
  | document (file : String)
  /-- Asks a file. -/
  | get (file : Option String) (key : Key)
  /-- Reads a key of a file. -/
  | readKey (file : Option String) (key : Key) (transform : Option Transform)
  /-- Reads a key in the environment. -/
  | readEnvironment (key : OptionKey) (transform : Option Transform)
  /-- Resolves a setting. -/
  | resolve (file : Option String) (setting : Setting)
  /-- Reads a setting. -/
  | read (file : Option String) (setting : Setting)
  /-- Resolves all settings of a group. -/
  | group (file : Option String) (settings : Members Setting)
  /-- Finds the file to use and binds it. -/
  | locate (hint : StepHint) (search : Search) (name : String)
  /-- Lists the places to look at. -/
  | candidates (search : Search)
  | setVariable (name value : String)
  | unsetVariable (name : String)
  | write (path : String) (node : FileNode)
  | remove (path : String)
  | setLogger (logger : Option Log.Logger)
  /-- Shows the logger of the package. -/
  | getLogger
  | log (level message : String) (extra : Option (Members Value))

/-- What a step answers. -/
inductive Answer where
  | done
  | file (file : Option SettingsFile)
  | sameFile
  | noFile
  | value (v : Value)
  | resolved (r : Option Resolved)
  | group (outcomes : List (String × Except Failure (Option Resolved)))
  | candidates (candidates : List Candidate)
  | logger (logger : Log.Logger)

/-- The outcome of a step, and the records that it logged. -/
structure Outcome where
  result : Except Failure Answer
  records : List Log.Record

/-- A session between two steps. -/
structure Session where
  world : World
  files : List (String × SettingsFile)

namespace Session

/-- The file bound to a name. -/
def file? (s : Session) (name : Option String) : Option SettingsFile :=
  name.bind fun name => s.files.lookup name

/-- What is known of the file to use, once the names of files are looked up. -/
def hint (s : Session) : StepHint → Hint
  | .bound name =>
    match s.file? name with
    | some file => .file file
    | none => .nothing
  | .path path => .path path
  | .nothing => .nothing

/-- Binds a file to a name, or nothing. -/
def bind (s : Session) (name : String) (file : Option SettingsFile) : Session :=
  let others := s.files.filter fun binding => binding.1 != name
  { s with files := match file with
      | some file => (name, file) :: others
      | none => others }

/-- Resolves settings one after the other. A failure ends one of them only. -/
def resolveAll (file : Option SettingsFile) :
    Members Setting → StateM World (List (String × Except Failure (Option Resolved)))
  | [] => return []
  | (name, setting) :: rest => do
    let outcome ← (setting.resolve file).run
    return (name, outcome) :: (← resolveAll file rest)

/-- What a step does in the world, given what its file name and its hint stand for. -/
def act (s : Session) : Step → Action Answer
  | .load location _ => return .file (some (← SettingsFile.load location))
  | .document file => return .file (s.file? file)
  | .get file key =>
    match s.file? file with
    | some file => return .value (← file.get key)
    | none => return .noFile
  | .readKey file key transform =>
    match s.file? file, key with
    | some file, .option key => return .value (← key.readFromFile file transform)
    | some file, .switch key => return .value (← key.readFromFile file transform)
    | _, _ => return .value .absent
  | .readEnvironment key transform => return .value (← key.readFromEnvironment transform)
  | .resolve file setting => return .resolved (← setting.resolve (s.file? file))
  | .read file setting => return .value (← setting.read (s.file? file))
  | .group file settings => do
    return .group (← (resolveAll (s.file? file) settings : StateM World _))
  | .locate hint search _ =>
    match s.hint hint with
    | .file _ => return .sameFile
    | hint => return .file (← hint.follow search)
  | .candidates search => return .candidates (search.candidates (← get))
  | .setVariable name value => do
    modify fun w => { w with environment := w.environment.set name value }
    return .done
  | .unsetVariable name => do
    modify fun w => { w with environment := w.environment.unset name }
    return .done
  | .write path node => do
    modify fun w => { w with files := w.files.write path node }
    return .done
  | .remove path => do
    modify fun w => { w with files := w.files.remove path }
    return .done
  | .setLogger logger => do
    modify fun w => { w with logger }
    return .done
  | .getLogger => do
    modify World.fixLogger
    return .logger (← get).currentLogger
  | .log level message extra => do
    Action.log level message extra
    return .done

/-- The bindings after a step: what it has read is bound to its name, and a failure to nothing. -/
def rebind (s : Session) (step : Step) (result : Except Failure Answer) : Session :=
  match step, result with
  | .load _ name, .ok (.file file) => s.bind name file
  | .load _ name, .error _ => s.bind name none
  | .locate _ _ name, .ok (.file file) => s.bind name file
  | .locate _ _ name, .error _ => s.bind name none
  | _, _ => s

/-- Runs a step. -/
def step (s : Session) (step : Step) : Outcome × Session :=
  let (result, world) := (s.act step).run { s.world with records := [] }
  ({ result, records := world.records }, { (s.rebind step result) with world })

/-- Runs steps one after the other. -/
def run (s : Session) : List Step → List Outcome × Session
  | [] => ([], s)
  | first :: rest =>
    let (outcome, s) := s.step first
    let (outcomes, s) := s.run rest
    (outcome :: outcomes, s)

end Session

end LayeredSettings
