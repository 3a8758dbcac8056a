import LayeredSettings.Proofs.Text.Case
import LayeredSettings.World.Basic

/-!
# The level of the default logger

Six levels stand in a fixed order, and a logger at one of them writes the records of this level and
of all that come after it. The default logger is at the level that a variable names in any letter
case, and at `warn` if it names none. Two names are taken for levels although they are none, since
every table has members of these names; a logger at such a level writes nothing at all.

* `isEnabled_iff` — what a logger at one of the levels writes;
* `isListed_lowerCase_iff` — the texts that are taken for levels;
* `World.leveledBy_variable` — the level of the default logger for every value of the variable.
-/

namespace LayeredSettings

namespace Log

/-! ## The order of levels -/

/-- The levels, from the least to the most urgent. -/
inductive Level where
  | trace
  | debug
  | info
  | warn
  | error
  | fatal
deriving DecidableEq

namespace Level

/-- The name of a level. -/
def name : Level → String
  | trace => "trace"
  | debug => "debug"
  | info => "info"
  | warn => "warn"
  | error => "error"
  | fatal => "fatal"

/-- How many levels are less urgent. -/
def urgency : Level → Nat
  | trace => 0
  | debug => 1
  | info => 2
  | warn => 3
  | error => 4
  | fatal => 5

instance : LE Level := ⟨fun l m => l.urgency ≤ m.urgency⟩

instance (l m : Level) : Decidable (l ≤ m) :=
  inferInstanceAs (Decidable (l.urgency ≤ m.urgency))

theorem le_iff {l m : Level} : l ≤ m ↔ l.urgency ≤ m.urgency := Iff.rfl

theorem le_fatal (l : Level) : l ≤ fatal := by
  cases l with
  | _ => exact le_iff.mpr (by decide)

/-- All levels but the two last ones are at most `warn`. -/
theorem le_warn {l : Level} (herror : l ≠ error) (hfatal : l ≠ fatal) : l ≤ warn := by
  cases l with
  | error => exact absurd rfl herror
  | fatal => exact absurd rfl hfatal
  | _ => exact le_iff.mpr (by decide)

end Level

theorem lookup_levels (l : Level) : levels.lookup l.name = some (10 * l.urgency) := by
  cases l with
  | _ => rfl

/-- The levels that have a rank of their own are those of the order. -/
theorem isSome_lookup_levels_iff {s : String} :
    (levels.lookup s).isSome = true ↔ ∃ l : Level, s = l.name := by
  constructor
  · intro h
    obtain ⟨n, hn⟩ := Option.isSome_iff_exists.mp h
    have hall : ∀ entry ∈ levels, ∃ l : Level, entry.1 = l.name := by
      intro entry hentry
      simp only [levels, List.mem_cons, List.not_mem_nil, or_false] at hentry
      rcases hentry with rfl | rfl | rfl | rfl | rfl | rfl
      · exact ⟨.trace, rfl⟩
      · exact ⟨.debug, rfl⟩
      · exact ⟨.info, rfl⟩
      · exact ⟨.warn, rfl⟩
      · exact ⟨.error, rfl⟩
      · exact ⟨.fatal, rfl⟩
    obtain ⟨before, after, hsplit, -⟩ := List.lookup_eq_some_iff.mp hn
    exact hall (s, n) (by rw [hsplit]; exact List.mem_append_right _ List.mem_cons_self)
  · rintro ⟨l, rfl⟩
    rw [lookup_levels]
    rfl

theorem rank_name (l : Level) : rank l.name = .number (10 * l.urgency) := by
  rw [rank, lookup_levels]

/-- A logger at a level writes the records of this level and of all that come after it. -/
theorem isEnabled_iff {logger : Logger} {l : Level} (h : logger.level = l.name) (m : Level) :
    logger.isEnabled m.name = true ↔ l ≤ m := by
  rw [Logger.isEnabled, h, rank_name, rank_name, Rank.atLeast, decide_eq_true_iff, Level.le_iff]
  omega

/-! ## Texts that are taken for levels -/

/-- The names of common members that are in lower case. -/
def lowerMembers : List String := ["constructor", "__proto__"]

/-- No level has the name of a common member. -/
theorem name_not_mem_lowerMembers (l : Level) : l.name ∉ lowerMembers := by
  cases l with
  | _ => decide

theorem lookup_lowerMembers {s : String} (h : s ∈ lowerMembers) :
    levels.lookup s = none ∧ ∃ text, commonMembers.lookup s = some text := by
  rcases List.mem_cons.mp h with rfl | h
  · exact ⟨rfl, _, rfl⟩
  · rw [List.mem_singleton.mp h]
    exact ⟨rfl, _, rfl⟩

/-- A logger that is at the name of a common member writes the records of no level. -/
theorem isEnabled_of_mem_lowerMembers {logger : Logger} (h : logger.level ∈ lowerMembers)
    (m : Level) : logger.isEnabled m.name = false := by
  obtain ⟨hnone, text, htext⟩ := lookup_lowerMembers h
  have hrank : rank logger.level = .text text := by
    rw [rank, hnone, htext]
  rw [Logger.isEnabled, hrank, rank_name]
  rfl

/-- All other common members have a capital letter in their name. -/
theorem mem_lowerMembers_of_lookup {s : String}
    (h : (commonMembers.lookup (Text.lowerCase s)).isSome = true) :
    Text.lowerCase s ∈ lowerMembers := by
  obtain ⟨text, htext⟩ := Option.isSome_iff_exists.mp h
  obtain ⟨before, after, hsplit, -⟩ := List.lookup_eq_some_iff.mp htext
  have hmem : (Text.lowerCase s, text) ∈ commonMembers := by
    rw [hsplit]
    exact List.mem_append_right _ List.mem_cons_self
  have hall : ∀ entry ∈ commonMembers,
      entry.1 ∈ lowerMembers ∨ entry.1.toList.any Char.isUpper = true := by
    decide +kernel
  refine (hall _ hmem).resolve_right fun hany => ?_
  obtain ⟨c, hc, hupper⟩ := List.any_eq_true.mp hany
  rw [Text.toList_lowerCase] at hc
  exact Text.not_isLowered_of_isUpper hupper (Text.isLowered_of_mem_lowerFrom hc)

/-- A text in lower case is taken for a level if it is one, or the name of a common member. -/
theorem isListed_lowerCase_iff {s : String} :
    isListed (Text.lowerCase s) = true ↔
      (∃ l : Level, Text.lowerCase s = l.name) ∨ Text.lowerCase s ∈ lowerMembers := by
  rw [isListed, Bool.or_eq_true, isSome_lookup_levels_iff]
  refine or_congr_right ⟨mem_lowerMembers_of_lookup, fun h => ?_⟩
  obtain ⟨-, text, htext⟩ := lookup_lowerMembers h
  rw [htext]
  rfl

/-! ## The default logger -/

namespace Logger

/-- The level of the default logger is the one that is named, or a common member that is named, or
`warn` if neither is. -/
theorem level_default (value : Option String) :
    (∃ l : Level, value.map Text.lowerCase = some l.name ∧ (Logger.default value).level = l.name) ∨
    (∃ name ∈ lowerMembers, value.map Text.lowerCase = some name ∧
      (Logger.default value).level = name) ∨
    ((∀ l : Level, value.map Text.lowerCase ≠ some l.name) ∧
      (∀ name ∈ lowerMembers, value.map Text.lowerCase ≠ some name) ∧
        (Logger.default value).level = Level.warn.name) := by
  cases value with
  | none => exact .inr (.inr ⟨fun l => by simp, fun name _ => by simp, rfl⟩)
  | some s =>
    have hlevel : (Logger.default (some s)).level =
        if isListed (Text.lowerCase s) = true then Text.lowerCase s else Level.warn.name := by
      by_cases hlisted : isListed (Text.lowerCase s) = true
      · simp [Logger.default, Option.filter, hlisted]
      · simp [Logger.default, Option.filter, hlisted, Level.name]
    rw [Option.map_some]
    by_cases hlisted : isListed (Text.lowerCase s) = true
    · rw [if_pos hlisted] at hlevel
      rcases isListed_lowerCase_iff.mp hlisted with ⟨l, hl⟩ | hmember
      · exact .inl ⟨l, congrArg some hl, hlevel.trans hl⟩
      · exact .inr (.inl ⟨_, hmember, rfl, hlevel⟩)
    · rw [if_neg hlisted] at hlevel
      rw [isListed_lowerCase_iff, not_or, not_exists] at hlisted
      obtain ⟨hlevels, hmembers⟩ := hlisted
      refine .inr (.inr ⟨fun l hl => hlevels l (Option.some.inj hl), ?_, hlevel⟩)
      rintro name hname hvalue
      exact hmembers (Option.some.inj hvalue ▸ hname)

/-- How the value of a variable, if it has one, sets the level of a logger. -/
structure LeveledBy (logger : Logger) (value : Option String) : Prop where
  /-- A level that is named in any letter case is the level of the logger. -/
  named : ∀ l : Level, value.map Text.lowerCase = some l.name → logger.level = l.name
  /-- The name of a common member is taken for a level, and then no record is written. -/
  member : ∀ name ∈ lowerMembers, value.map Text.lowerCase = some name →
    logger.level = name ∧ ∀ m : Level, logger.isEnabled m.name = false
  /-- Every other value comes to `warn`, and so does none. -/
  other : (∀ l : Level, value.map Text.lowerCase ≠ some l.name) →
    (∀ name ∈ lowerMembers, value.map Text.lowerCase ≠ some name) →
      logger.level = Level.warn.name
  /-- At a level, the records of this one and of all later ones are written. -/
  threshold : ∀ l : Level, logger.level = l.name →
    ∀ m : Level, logger.isEnabled m.name = true ↔ l ≤ m
  /-- The most urgent records are written, unless a common member is named. -/
  fatal : (∀ name ∈ lowerMembers, value.map Text.lowerCase ≠ some name) →
    logger.isEnabled Level.fatal.name = true
  /-- Warnings are written, unless a common member or one of the two more urgent levels is named. -/
  warn : (∀ name ∈ lowerMembers, value.map Text.lowerCase ≠ some name) →
    value.map Text.lowerCase ≠ some Level.error.name →
      value.map Text.lowerCase ≠ some Level.fatal.name →
        logger.isEnabled Level.warn.name = true

end Logger

end Log

/-- Where no logger is set, the variable levels the one that is used. -/
theorem World.leveledBy_variable {w : World} (h : w.logger = none) :
    w.currentLogger.LeveledBy (w.environment.get? Log.levelVariable) := by
  have hcurrent : w.currentLogger =
      Log.Logger.default (w.environment.get? Log.levelVariable) := by
    rw [currentLogger, h, Option.getD_none]
  rw [hcurrent]
  have hlevel := Log.Logger.level_default (w.environment.get? Log.levelVariable)
  refine ⟨?_, ?_, ?_, ?_, ?_, ?_⟩
  · intro l hl
    rcases hlevel with ⟨m, hm, hlevel⟩ | ⟨name, hname, hvalue, -⟩ | ⟨hnone, -, -⟩
    · rw [hlevel]
      exact Option.some.inj (hm.symm.trans hl)
    · rw [hl] at hvalue
      exact absurd (Option.some.inj hvalue ▸ hname) (Log.name_not_mem_lowerMembers l)
    · exact absurd hl (hnone l)
  · intro name hname hvalue
    have hsame : (Log.Logger.default (w.environment.get? Log.levelVariable)).level = name := by
      rcases hlevel with ⟨m, hm, -⟩ | ⟨other, -, hother, hlevel⟩ | ⟨-, hnone, -⟩
      · rw [hm] at hvalue
        exact absurd (Option.some.inj hvalue ▸ hname) (Log.name_not_mem_lowerMembers m)
      · rw [hlevel]
        exact Option.some.inj (hother.symm.trans hvalue)
      · exact absurd hvalue (hnone name hname)
    exact ⟨hsame, Log.isEnabled_of_mem_lowerMembers (hsame ▸ hname)⟩
  · intro hlevels hmembers
    rcases hlevel with ⟨m, hm, -⟩ | ⟨name, hname, hvalue, -⟩ | ⟨-, -, hlevel⟩
    · exact absurd hm (hlevels m)
    · exact absurd hvalue (hmembers name hname)
    · exact hlevel
  · intro l hl m
    exact Log.isEnabled_iff hl m
  · intro hmembers
    rcases hlevel with ⟨m, -, hlevel⟩ | ⟨name, hname, hvalue, -⟩ | ⟨-, -, hlevel⟩
    · exact (Log.isEnabled_iff hlevel .fatal).mpr m.le_fatal
    · exact absurd hvalue (hmembers name hname)
    · exact (Log.isEnabled_iff hlevel .fatal).mpr (Log.Level.le_fatal .warn)
  · intro hmembers herror hfatal
    rcases hlevel with ⟨m, hm, hlevel⟩ | ⟨name, hname, hvalue, -⟩ | ⟨-, -, hlevel⟩
    · refine (Log.isEnabled_iff hlevel .warn).mpr (Log.Level.le_warn ?_ ?_)
      · rintro rfl
        exact herror hm
      · rintro rfl
        exact hfatal hm
    · exact absurd hvalue (hmembers name hname)
    · exact (Log.isEnabled_iff hlevel .warn).mpr (Nat.le_refl _)

/-- A world without a logger, whose variable names what is no level but a member of every table. -/
def World.ofMemberLevel : World :=
  { environment := { bindings := [(Log.levelVariable, "Constructor")] }
    files := { workingDirectory := [], nodes := [] }
    logger := none, records := [], accountHome := "/" }

/-- There not even the most urgent records are written. -/
theorem World.leveledBy_constructor :
    World.ofMemberLevel.logger = none ∧
      World.ofMemberLevel.environment.get? Log.levelVariable = some "Constructor" ∧
      World.ofMemberLevel.currentLogger.LeveledBy (some "Constructor") ∧
      World.ofMemberLevel.currentLogger.level = "constructor" ∧
      World.ofMemberLevel.currentLogger.isEnabled "fatal" = false := by
  have hvalue : World.ofMemberLevel.environment.get? Log.levelVariable = some "Constructor" := by
    decide +kernel
  have hlower : Text.lowerCase "Constructor" = "constructor" := by decide +kernel
  have hleveled := leveledBy_variable (w := World.ofMemberLevel) rfl
  rw [hvalue] at hleveled
  obtain ⟨hlevel, hnothing⟩ :=
    hleveled.member "constructor" List.mem_cons_self (congrArg some hlower)
  exact ⟨rfl, hvalue, hleveled, hlevel, hnothing .fatal⟩

end LayeredSettings
