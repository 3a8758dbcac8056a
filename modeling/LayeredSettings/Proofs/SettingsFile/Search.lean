import LayeredSettings.Proofs.SettingsFile.Loading
import LayeredSettings.SettingsFile.Search

/-!
# The first place that exists

A search goes through its places in order and reads the file at the first one that exists. Whether
this succeeds does not matter any more: a later place is never tried. So a search depends on the
files only up to that place, by what exists there, and by what the file at that place holds.

* `run_load_withFiles` — a file is read alike from file trees that are alike at its location;
* `Search.run_eq_of_first`, `Search.run_eq_of_none` — what a search comes to;
* `Search.findsFirst` — all of this over every world.
-/

namespace LayeredSettings

/-! ## File trees that are alike at a path -/

/-- The world with other files. -/
def World.withFiles (w : World) (files : FileTree) : World := { w with files }

@[simp] theorem World.files_withFiles (w : World) (files : FileTree) :
    (w.withFiles files).files = files := rfl

/-- Two file trees are alike at a path if something is there in both or in neither, and if they
have the same content there. -/
structure FileTree.AlikeAt (files files' : FileTree) (path : String) : Prop where
  pathExists_eq : files'.pathExists path = files.pathExists path
  contentOf?_eq : files'.contentOf? path = files.contentOf? path

theorem FileTree.AlikeAt.textOf?_eq {files files' : FileTree} {path : String}
    (h : files.AlikeAt files' path) : files'.textOf? path = files.textOf? path := by
  rw [textOf?, textOf?, h.contentOf?_eq]

namespace SettingsFile

variable {w : World} {files : FileTree} {location : String}

/-- Calls of the logger do not look at files. -/
theorem logAll_withFiles (w : World) (files : FileTree) (calls : List Log.Call) :
    (w.withFiles files).logAll calls = (w.logAll calls).withFiles files := by
  induction calls generalizing w with
  | nil => rfl
  | cons call rest ih => exact ih (w.log call.level call.message call.extra)

/-- A file is read alike from file trees that are alike at its location. What it is read as, what is
logged and how it fails stays the same. -/
theorem run_load_withFiles (h : w.files.AlikeAt files location) :
    (load location).run (w.withFiles files) =
      ((load location).run w).map id (·.withFiles files) := by
  have hcalls : loadCalls files location = loadCalls w.files location := by
    rw [loadCalls, loadCalls, emptyCall, emptyCall, h.textOf?_eq, h.pathExists_eq]
  have hloaded : loaded files location = loaded w.files location := by
    rw [loaded, loaded, h.textOf?_eq]
  have hlogger : (w.withFiles files).currentLogger = w.currentLogger := rfl
  rw [reports_load location (w.withFiles files), reports_load location w, World.files_withFiles,
    hcalls, hloaded, hlogger, logAll_withFiles]
  rfl

end SettingsFile

/-! ## Searching -/

/-- Whether a place is the first of some places that exists, `before` being those that are looked at
before it. -/
structure Candidate.IsFirst (files : FileTree) (candidates before : List Candidate)
    (c : Candidate) : Prop where
  listed : ∃ after, candidates = before ++ c :: after
  missing : ∀ other ∈ before, files.pathExists other.path = false
  present : files.pathExists c.path = true

namespace Candidate

variable {files files' : FileTree} {candidates before : List Candidate} {c : Candidate}

theorem IsFirst.firstExisting?_eq (h : IsFirst files candidates before c) :
    firstExisting? files candidates = some c := by
  obtain ⟨after, rfl⟩ := h.listed
  have hbefore : before.find? (fun c => files.pathExists c.path) = none := by
    rw [List.find?_eq_none]
    intro other hother
    simp [h.missing other hother]
  rw [firstExisting?, List.find?_append, hbefore, Option.none_or, List.find?_cons, h.present]

/-- If a place exists at all, there is a first one. -/
theorem exists_isFirst (h : ∃ c ∈ candidates, files.pathExists c.path = true) :
    ∃ before c, IsFirst files candidates before c := by
  induction candidates with
  | nil =>
    obtain ⟨c, hc, -⟩ := h
    exact absurd hc List.not_mem_nil
  | cons first rest ih =>
    cases hfirst : files.pathExists first.path with
    | true => exact ⟨[], first, ⟨rest, rfl⟩, fun _ hc => absurd hc List.not_mem_nil, hfirst⟩
    | false =>
      obtain ⟨c, hc, hexists⟩ := h
      have hrest : c ∈ rest := by
        rcases List.mem_cons.mp hc with rfl | hc
        · rw [hfirst] at hexists
          cases hexists
        · exact hc
      obtain ⟨before, found, ⟨after, hlisted⟩, hmissing, hpresent⟩ := ih ⟨c, hrest, hexists⟩
      refine ⟨first :: before, found, ⟨after, by rw [hlisted]; rfl⟩, ?_, hpresent⟩
      intro other hother
      rcases List.mem_cons.mp hother with rfl | hother
      · exact hfirst
      · exact hmissing other hother

/-- Which place comes first depends on what exists up to it, and on nothing later. -/
theorem IsFirst.of_agree (h : IsFirst files candidates before c)
    (hagree : ∀ other ∈ before ++ [c], files'.pathExists other.path = files.pathExists other.path) :
    IsFirst files' candidates before c := by
  refine ⟨h.listed, ?_, ?_⟩
  · intro other hother
    rw [hagree other (List.mem_append_left _ hother), h.missing other hother]
  · rw [hagree c (List.mem_append_right _ List.mem_cons_self), h.present]

end Candidate

namespace Search

variable {s : Search} {w : World} {before : List Candidate} {c : Candidate}

/-- The text of the variable that may name a file. -/
def variableText? (s : Search) (w : World) : Option String :=
  s.bindings.elim (w.environment.get? fileVariable) fun bindings => bindings.get? fileVariable

/-- The file that the variable names, if it names one. An empty text names none. -/
def named? (s : Search) (w : World) : Option String := (s.variableText? w).filter (· ≠ "")

/-- A path as seen from the directory that the search starts from. -/
def fromHere (s : Search) (w : World) (path : String) : String :=
  Path.resolve [w.files.workingPath, s.workingDirectory.getD w.files.workingPath] path

/-- The path of a file in the settings directory of the home directory. -/
def fromHome (s : Search) (w : World) (name : String) : String :=
  Path.join [s.homeDirectory.getD w.homePath, ".flyte", name]

/-- The places, in order. Unless the variable names a file there is one less. -/
theorem candidates_eq_places (s : Search) (w : World) :
    s.candidates w =
      [⟨.workingDirectory, s.fromHere w localFileName⟩, ⟨.home, s.fromHome w "config"⟩] ++
        ((s.named? w).map fun path => ⟨.environment, s.fromHere w path⟩).toList ++
          [⟨.homeYaml, s.fromHome w "config.yaml"⟩] := by
  have hnamed (value : Option String) :
      ((value.filter (· ≠ "")).map fun path =>
        (⟨.environment, s.fromHere w path⟩ : Candidate)).toList =
        value.elim [] fun path =>
          if path = "" then [] else [⟨.environment, s.fromHere w path⟩] := by
    cases value with
    | none => rfl
    | some path =>
      by_cases hempty : path = ""
      · simp [hempty]
      · simp [Option.filter, hempty]
  rw [named?, hnamed]
  unfold candidates variableText?
  cases s.bindings with
  | none =>
    dsimp only
    cases w.environment.get? fileVariable with
    | none => rfl
    | some path => rfl
  | some bindings =>
    dsimp only [Option.elim_some]
    cases bindings.get? fileVariable with
    | none => rfl
    | some path => rfl

/-- The places do not depend on the files, the directory of the world apart. -/
theorem candidates_withFiles {files : FileTree}
    (h : files.workingDirectory = w.files.workingDirectory) :
    s.candidates (w.withFiles files) = s.candidates w := by
  have hpath : files.workingPath = w.files.workingPath := by
    rw [FileTree.workingPath, FileTree.workingPath, h]
  unfold candidates
  rw [World.files_withFiles, hpath]
  rfl

/-- A search without a place that exists finds nothing and logs nothing. -/
theorem run_eq_of_none (h : ∀ c ∈ s.candidates w, w.files.pathExists c.path = false) :
    s.run.run w = (.ok none, w) := by
  have hnone : Candidate.firstExisting? w.files (s.candidates w) = none := by
    rw [Candidate.firstExisting?, List.find?_eq_none]
    intro c hc
    simp [h c hc]
  rw [run, Action.run_get_bind, hnone]
  rfl

/-- The world after the record that says which place is used. -/
def announce (w : World) (c : Candidate) : World :=
  w.log "info" (c.source.label ++ " " ++ c.path) none

/-- A search reads the file at the first place that exists, right after it has logged which one that
is, and ends as this reading ends. -/
theorem run_eq_of_first (h : Candidate.IsFirst w.files (s.candidates w) before c) :
    s.run.run w = ((SettingsFile.load c.path).run (announce w c)).map (Except.map some) id := by
  rw [run, Action.run_get_bind, h.firstExisting?_eq]
  dsimp only
  rw [Action.run_bind, Action.run_log_of_hasEnd Log.Logger.hasEnd_none]
  dsimp only
  rw [Action.run_bind, announce]
  rcases (SettingsFile.load c.path).run _ with ⟨failure | file, left⟩
  · rfl
  · rfl

/-- The first place is read alike from files that are alike up to it, whatever the later places
are. -/
theorem run_withFiles {files : FileTree}
    (hdirectory : files.workingDirectory = w.files.workingDirectory)
    (h : Candidate.IsFirst w.files (s.candidates w) before c)
    (hagree : ∀ other ∈ before ++ [c],
      files.pathExists other.path = w.files.pathExists other.path)
    (hcontent : files.contentOf? c.path = w.files.contentOf? c.path) :
    s.run.run (w.withFiles files) = (s.run.run w).map id (·.withFiles files) := by
  have hother : Candidate.IsFirst (w.withFiles files).files (s.candidates (w.withFiles files))
      before c := by
    rw [candidates_withFiles hdirectory]
    exact h.of_agree hagree
  have halike : (announce w c).files.AlikeAt files c.path :=
    ⟨hagree c (List.mem_append_right _ List.mem_cons_self), hcontent⟩
  have hannounce : announce (w.withFiles files) c = (announce w c).withFiles files := rfl
  rw [run_eq_of_first hother, run_eq_of_first h, hannounce,
    SettingsFile.run_load_withFiles halike]
  rfl

/-- What it means that a search in a world takes the first place that exists. -/
structure FindsFirst (s : Search) (w : World) : Prop where
  /-- The order of the places. That of the variable is there exactly if it names a file. -/
  places : s.candidates w =
    [⟨.workingDirectory, s.fromHere w localFileName⟩, ⟨.home, s.fromHome w "config"⟩] ++
      ((s.named? w).map fun path => ⟨.environment, s.fromHere w path⟩).toList ++
        [⟨.homeYaml, s.fromHome w "config.yaml"⟩]
  /-- No place exists, or one is the first that does. -/
  none_or_first : (∀ c ∈ s.candidates w, w.files.pathExists c.path = false) ∨
    ∃ before c, Candidate.IsFirst w.files (s.candidates w) before c
  /-- Where none exists, nothing is found and nothing logged. -/
  run_of_none : (∀ c ∈ s.candidates w, w.files.pathExists c.path = false) →
    (Hint.nothing.follow s).run w = (.ok none, w)
  /-- Where one is the first, it is announced, and then all goes as if its file were read. -/
  run_of_first : ∀ before c, Candidate.IsFirst w.files (s.candidates w) before c →
    (Hint.nothing.follow s).run w =
      ((SettingsFile.load c.path).run (announce w c)).map (Except.map some) id
  /-- To announce a place is to log one record of it, and changes neither files nor variables. -/
  announced : ∀ c,
    (announce w c).records = w.records ++
      w.currentLogger.written "info" (c.source.label ++ " " ++ c.path) none ∧
    (announce w c).files = w.files ∧ (announce w c).environment = w.environment
  /-- Other files leave the same place the first one, if they agree about what exists up to it. -/
  choice : ∀ before c, Candidate.IsFirst w.files (s.candidates w) before c →
    ∀ files : FileTree, files.workingDirectory = w.files.workingDirectory →
      (∀ other ∈ before ++ [c], files.pathExists other.path = w.files.pathExists other.path) →
        Candidate.IsFirst files (s.candidates (w.withFiles files)) before c
  /-- If they also have the same content at this place, the search comes to the same. -/
  result : ∀ before c, Candidate.IsFirst w.files (s.candidates w) before c →
    ∀ files : FileTree, files.workingDirectory = w.files.workingDirectory →
      (∀ other ∈ before ++ [c], files.pathExists other.path = w.files.pathExists other.path) →
        files.contentOf? c.path = w.files.contentOf? c.path →
          (Hint.nothing.follow s).run (w.withFiles files) =
            ((Hint.nothing.follow s).run w).map id (·.withFiles files)

/-- Every search takes the first place that exists, in every world. -/
theorem findsFirst (s : Search) (w : World) : s.FindsFirst w := by
  have hfollow : Hint.nothing.follow s = s.run := rfl
  refine ⟨candidates_eq_places s w, ?_, ?_, ?_, ?_, ?_, ?_⟩
  · by_cases h : ∃ c ∈ s.candidates w, w.files.pathExists c.path = true
    · exact .inr (Candidate.exists_isFirst h)
    · refine .inl fun c hc => ?_
      have hnot : ¬ w.files.pathExists c.path = true := fun hexists => h ⟨c, hc, hexists⟩
      simpa using hnot
  · intro h
    rw [hfollow]
    exact run_eq_of_none h
  · intro before c h
    rw [hfollow]
    exact run_eq_of_first h
  · intro c
    exact ⟨World.records_log w _ _ _, rfl, rfl⟩
  · intro before c h files hdirectory hagree
    rw [candidates_withFiles hdirectory]
    exact h.of_agree hagree
  · intro before c h files hdirectory hagree hcontent
    rw [hfollow]
    exact run_withFiles hdirectory h hagree hcontent

end Search

end LayeredSettings
