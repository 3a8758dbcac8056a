import LayeredSettings.Proofs.Text.Lines
import LayeredSettings.Proofs.Value.Walk
import LayeredSettings.Proofs.World.Calls
import LayeredSettings.SettingsFile.Basic

/-!
# Following switches

What a file with a YAML document answers when it is asked for a switch, for every document of plain
data. A switch is a path of names; how the path ends decides the answer. A switch with a dot in it
is followed in two steps, since its path is the path of the one part and then that of the other.

* `reports_get_switch` — the answer for each end of the path, also in an endless document;
* `SwitchKey.path_append` — the path of two switches joined by a dot;
* `SettingsFile.followsSwitches` — all of this over every document.
-/

namespace LayeredSettings

/-- The path of two switches that are joined by a dot is the path of the first and then that of the
second, be there dots in them or not. -/
theorem SwitchKey.path_append {s t joined : SwitchKey}
    (h : joined.switch = s.switch ++ "." ++ t.switch) : joined.path = s.path ++ t.path := by
  have hjoin : joined.switch = Text.joinWith '.' [s.switch, t.switch] := by
    rw [h]
    apply String.toList_inj.mp
    simp [Text.joinWith, List.intercalate_cons_cons]
  rw [path, hjoin, Text.splitAt_joinWith_eq_flatMap '.' (by simp)]
  simp [path]

/-- A switch has at least one name. -/
theorem SwitchKey.path_ne_nil (key : SwitchKey) : key.path ≠ [] :=
  Text.splitAt_ne_nil '.' key.switch

namespace SettingsFile

/-- What is returned for a switch whose path ends in some way. -/
def reply (switch : String) : Walk → Except Failure Value
  | .found v => .ok v
  | .missing _ => .ok .absent
  | .blocked name => .error (.notAMapping name switch)

/-- The world after a switch was not found. -/
def reportMissing (w : World) (location switch : String) (document : Value) : World :=
  (w.log "error" ("Switch " ++ switch ++ " could not be found in yaml config") none).log
    "debug" ("Yaml config at " ++ location) (some [("document", document)])

/-- The calls after the path of a switch has ended in some way. Only a name that is missing is
reported. -/
def endCalls (location switch : String) (document : Value) : Walk → List Log.Call
  | .missing _ =>
    [⟨"error", "Switch " ++ switch ++ " could not be found in yaml config", none⟩,
      ⟨"debug", "Yaml config at " ++ location, some [("document", document)]⟩]
  | _ => []

/-- A finite document can be shown in every report. -/
theorem refusalAmong?_endCalls {document : Value} (hfinite : document.isEndless = false)
    (logger : Log.Logger) (location switch : String) (e : Walk) :
    logger.refusalAmong? (endCalls location switch document e) = none := by
  have hextra : (Value.map [("document", document)]).isEndless = false :=
    (Bool.or_false document.isEndless).trans hfinite
  cases e with
  | missing name =>
    rw [endCalls, Log.Logger.refusalAmong?, List.findSome?_cons, List.findSome?_cons,
      Log.Logger.refusal?_eq_none Log.Logger.hasEnd_none,
      Log.Logger.refusal?_eq_none (Log.Logger.hasEnd_of_finite hextra)]
    rfl
  | _ => rfl

theorem reply_eq_ok_iff {switch : String} {e : Walk} {v : Value} :
    reply switch e = .ok v ↔ e = .found v ∨ v = .absent ∧ ∃ name, e = .missing name := by
  cases e with
  | found w => simp [reply]
  | missing name => simp [reply, eq_comm]
  | blocked name => simp [reply]

section

variable {file : SettingsFile} {document : Value} {key : SwitchKey}

/-- The end of the path decides the answer, and what is logged. -/
theorem reports_get_switch (hfile : file.content = .yaml (some document)) (w : World) :
    (file.get (.switch key)).Reports w
      (endCalls file.location key.switch document (document.walk key.path))
      (reply key.switch (document.walk key.path)) := by
  have hget : file.get (.switch key) = getYaml file.location document key := by
    simp only [get, hfile]
  rw [hget, getYaml]
  cases document.walk key.path with
  | found v => exact Action.reports_pure v w
  | missing name =>
    exact Action.reports_log_bind Log.Logger.hasEnd_none ((Action.reports_log _ _ _ _).answer _)
  | blocked name => exact Action.reports_nil_of_run rfl

theorem run_get_switch (hfile : file.content = .yaml (some document))
    (hfinite : document.isEndless = false) (w : World) :
    (file.get (.switch key)).run w =
      (reply key.switch (document.walk key.path),
        w.logAll (endCalls file.location key.switch document (document.walk key.path))) := by
  rw [reports_get_switch hfile w, refusalAmong?_endCalls hfinite]

theorem outcome_get_switch (hfile : file.content = .yaml (some document))
    (hfinite : document.isEndless = false) (w : World) :
    (file.get (.switch key)).outcome w = reply key.switch (document.walk key.path) := by
  rw [Action.outcome, run_get_switch hfile hfinite]

end

/-- How a file with a document answers switches. -/
structure FollowsSwitches (file : SettingsFile) (document : Value) : Prop where
  /-- The path of every switch ends in exactly one way. -/
  one_end : ∀ key : SwitchKey, ∃! e, document.Ends key.path e
  /-- A value that is no map is reached by one name at least. -/
  not_at_once : ∀ path v, document.Leads path v → (∀ members, v ≠ .map members) → path ≠ []
  /-- A path that leads to a value is answered with this value. -/
  found : ∀ (key : SwitchKey) v, document.Ends key.path (.found v) →
    ∀ w, (file.get (.switch key)).run w = (.ok v, w)
  /-- A path that leads to a map without the next name is answered with nothing, and reported. -/
  missing : ∀ (key : SwitchKey) name, document.Ends key.path (.missing name) →
    ∀ w, (file.get (.switch key)).run w =
      (.ok .absent, reportMissing w file.location key.switch document)
  /-- The report is an error that tells the switch, and the document for those who debug. -/
  reported : ∀ (key : SwitchKey) w,
    (reportMissing w file.location key.switch document).records = w.records ++
      w.currentLogger.written "error"
        ("Switch " ++ key.switch ++ " could not be found in yaml config") none ++
      w.currentLogger.written "debug" ("Yaml config at " ++ file.location)
        (some [("document", document)])
  /-- A path that goes on from a value that is no map is a failure, which tells the next name. -/
  blocked : ∀ (key : SwitchKey) name, document.Ends key.path (.blocked name) →
    ∃ failure, failure.kind = "TypeError" ∧
      failure.message = "Cannot read '" ++ name ++
        "' of a non-mapping value while resolving switch " ++ key.switch ∧
      ∀ w, (file.get (.switch key)).run w = (.error failure, w)
  /-- If the first part of a switch gives a map, the switch is answered as the path of the second
  part ends in this map. -/
  joined_map : ∀ s t joined : SwitchKey, joined.switch = s.switch ++ "." ++ t.switch →
    ∀ w members, (file.get (.switch s)).outcome w = .ok (.map members) →
      ∀ e, (Value.map members).Ends t.path e →
        (file.get (.switch joined)).outcome w = reply joined.switch e
  /-- If the first part misses a name, the switch misses it. -/
  joined_missing : ∀ s t joined : SwitchKey, joined.switch = s.switch ++ "." ++ t.switch →
    ∀ name, document.Ends s.path (.missing name) → document.Ends joined.path (.missing name)
  /-- If the first part gives anything else or fails, the switch fails. -/
  joined_other : ∀ s t joined : SwitchKey, joined.switch = s.switch ++ "." ++ t.switch →
    ∀ w, (file.get (.switch s)).outcome w ≠ .ok .absent →
      (∀ members, (file.get (.switch s)).outcome w ≠ .ok (.map members)) →
        ∃ name, (file.get (.switch joined)).outcome w = .error (.notAMapping name joined.switch)
  /-- A name that every table has is not found where a map does not have it as its own. -/
  own_names : ∀ name ∈ Members.names Log.commonMembers, ∀ (key : SwitchKey) before after members,
    key.path = before ++ name :: after → document.Leads before (.map members) →
      name ∉ Members.names members → ∀ w, (file.get (.switch key)).outcome w = .ok .absent

/-- A file follows switches through every document of plain data. -/
theorem followsSwitches {file : SettingsFile} {members : Members Value}
    (hfile : file.content = .yaml (some (.map members))) (htree : (Value.map members).IsTree) :
    file.FollowsSwitches (.map members) := by
  have hfinite := htree.isEndless_eq_false
  have hends {path : List String} {e : Walk} (h : (Value.map members).Ends path e) :
      (Value.map members).walk path = e := (Value.walk_eq_iff_ends htree).mpr h
  refine ⟨?_, ?_, ?_, ?_, ?_, ?_, ?_, ?_, ?_, ?_⟩
  · intro key
    exact Value.existsUnique_ends htree key.path
  · rintro path v hleads hv rfl
    cases hleads
    exact hv members rfl
  · intro key v h w
    rw [run_get_switch hfile hfinite, hends h]
    rfl
  · intro key name h w
    rw [run_get_switch hfile hfinite, hends h]
    rfl
  · intro key w
    rw [reportMissing, World.records_log, World.records_log, World.currentLogger_log]
  · intro key name h
    refine ⟨.notAMapping name key.switch, rfl, rfl, fun w => ?_⟩
    rw [run_get_switch hfile hfinite, hends h]
    rfl
  · intro s t joined h w inner hget e he
    rw [outcome_get_switch hfile hfinite, reply_eq_ok_iff] at hget
    obtain hwalk | ⟨habsent, -⟩ := hget
    · have hinner : (Value.map inner).IsTree :=
        Value.Leads.isTree ((Value.walk_eq_iff_ends htree).mp hwalk) htree
      rw [outcome_get_switch hfile hfinite, SwitchKey.path_append h, Value.walk_append, hwalk]
      dsimp only
      rw [(Value.walk_eq_iff_ends hinner).mpr he]
    · cases habsent
  · intro s t joined h name hmissing
    rw [← Value.walk_eq_iff_ends htree, SwitchKey.path_append h, Value.walk_append, hends hmissing]
  · intro s t joined h w habsent hmap
    rw [outcome_get_switch hfile hfinite] at habsent hmap
    rw [outcome_get_switch hfile hfinite, SwitchKey.path_append h, Value.walk_append]
    cases hwalk : (Value.map members).walk s.path with
    | found v =>
      -- there is a next name, and no map to look it up in
      rw [hwalk] at hmap
      have hv : v.IsTree :=
        Value.Leads.isTree ((Value.walk_eq_iff_ends htree).mp hwalk) htree
      have hnot : ¬ v.isMapping = true := by
        intro hmapping
        obtain ⟨inner, rfl⟩ := hv.isMapping_iff.mp hmapping
        exact hmap inner rfl
      obtain ⟨name, rest, hpath⟩ := List.exists_cons_of_ne_nil t.path_ne_nil
      refine ⟨name, ?_⟩
      dsimp only
      rw [hpath, Value.walk, if_neg hnot]
      rfl
    | missing name =>
      rw [hwalk] at habsent
      exact absurd rfl habsent
    | blocked name => exact ⟨name, rfl⟩
  · intro name _ key before after inner hpath hleads hnot w
    have hmissing : (Value.map members).Ends key.path (.missing name) :=
      ⟨before, after, inner, hpath, hleads, hnot⟩
    rw [outcome_get_switch hfile hfinite, hends hmissing]
    rfl

/-- The members of a document with a list two maps deep. -/
def nestedMembers : Members Value := [("a", .map [("l", .list [.null])])]

/-- The file of this document. -/
def nestedFile : SettingsFile :=
  { location := "c.yaml", content := .yaml (some (.map nestedMembers)) }

theorem isTree_nestedMembers : (Value.map nestedMembers).IsTree := by
  have hlist : (Value.list [.null]).IsTree := by
    apply Value.BuiltFrom.list
    intro item hitem
    rw [List.mem_singleton.mp hitem]
    exact .scalar .null
  have hinner : (Value.map [("l", .list [.null])]).IsTree := by
    apply Value.BuiltFrom.map (by decide)
    intro entry hentry
    rw [List.mem_singleton.mp hentry]
    exact hlist
  apply Value.BuiltFrom.map (by decide)
  intro entry hentry
  rw [List.mem_singleton.mp hentry]
  exact hinner

/-- In this file the list is no place to look up a name. -/
theorem followsSwitches_nestedFile :
    nestedFile.content = .yaml (some (.map nestedMembers)) ∧
      (Value.map nestedMembers).IsTree ∧
      nestedFile.FollowsSwitches (.map nestedMembers) ∧
      ∀ w, ∃ failure, failure.kind = "TypeError" ∧
        failure.message = "Cannot read 'x' of a non-mapping value while resolving switch a.l.x" ∧
        (nestedFile.get (.switch ⟨"a.l.x", .string⟩)).run w = (.error failure, w) := by
  have hfile : nestedFile.content = .yaml (some (.map nestedMembers)) := rfl
  have hfollows := followsSwitches hfile isTree_nestedMembers
  refine ⟨rfl, isTree_nestedMembers, hfollows, fun w => ?_⟩
  have hpath : SwitchKey.path ⟨"a.l.x", .string⟩ = ["a", "l"] ++ "x" :: [] := by decide +kernel
  have hleads : (Value.map nestedMembers).Leads ["a", "l"] (.list [.null]) :=
    .on List.mem_cons_self (.on List.mem_cons_self (.here _))
  obtain ⟨failure, hkind, hmessage, hrun⟩ := hfollows.blocked ⟨"a.l.x", .string⟩ "x"
    ⟨["a", "l"], [], .list [.null], hpath, hleads, fun members h => by cases h⟩
  exact ⟨failure, hkind, hmessage, hrun w⟩

end SettingsFile

end LayeredSettings
