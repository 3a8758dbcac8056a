import LayeredSettings.SettingsFile.Basic

/-!
# Finding the file to use

There are at most four places to look at, in a fixed order, and the first one that exists is read.
-/

namespace LayeredSettings

/-- Where a place lies. -/
inductive CandidateSource where
  | workingDirectory
  | home
  | environment
  | homeYaml
deriving DecidableEq, Repr

namespace CandidateSource

/-- The name of a source. -/
def name : CandidateSource → String
  | workingDirectory => "cwd"
  | home => "home"
  | environment => "env"
  | homeYaml => "home-yaml"

/-- What is logged when the place is used. -/
def label : CandidateSource → String
  | workingDirectory => "Using configuration from process root"
  | home => "Using configuration from home directory"
  | environment => "Using flytectl/YAML config from FLYTECTL_CONFIG"
  | homeYaml => "Using flytectl/YAML config from home directory"

end CandidateSource

/-- A place to look at. -/
structure Candidate where
  source : CandidateSource
  path : String
deriving DecidableEq, Repr

/-- The first place that exists. -/
def Candidate.firstExisting? (files : FileTree) (candidates : List Candidate) : Option Candidate :=
  candidates.find? fun c => files.pathExists c.path

/-- What a search starts from. Whatever is not given is taken from the world. -/
structure Search where
  workingDirectory : Option String := none
  homeDirectory : Option String := none
  bindings : Option (Members String) := none

namespace Search

/-- The variable that names a file to use. -/
def fileVariable : String := "FLYTECTL_CONFIG"

/-- The name of a file in the working directory. -/
def localFileName : String := "flytekit.config"

/-- The places to look at, in order. -/
def candidates (s : Search) (w : World) : List Candidate :=
  let directory := s.workingDirectory.getD w.files.workingPath
  let home := s.homeDirectory.getD w.homePath
  let lookUp (name : String) : Option String := match s.bindings with
    | some bindings => bindings.get? name
    | none => w.environment.get? name
  let fromHere (path : String) : String := Path.resolve [w.files.workingPath, directory] path
  let named := match lookUp fileVariable with
    | some path => if path = "" then [] else [{ source := .environment, path := fromHere path }]
    | none => []
  [{ source := .workingDirectory, path := fromHere localFileName },
    { source := .home, path := Path.join [home, ".flyte", "config"] }] ++ named ++
    [{ source := .homeYaml, path := Path.join [home, ".flyte", "config.yaml"] }]

/-- Reads the file at the first place that exists. -/
def run (s : Search) : Action (Option SettingsFile) := do
  let w ← get
  match Candidate.firstExisting? w.files (s.candidates w) with
  | some c =>
    Action.log "info" (c.source.label ++ " " ++ c.path) none
    return some (← SettingsFile.load c.path)
  | none => return none

end Search

/-- What is known of the file to use. -/
inductive Hint where
  | file (file : SettingsFile)
  | path (path : String)
  | nothing

/-- The file to use: the one that is known, or what a search finds. -/
def Hint.follow (search : Search) : Hint → Action (Option SettingsFile)
  | .file known => return some known
  | .path location => return some (← SettingsFile.load location)
  | .nothing => search.run

end LayeredSettings
