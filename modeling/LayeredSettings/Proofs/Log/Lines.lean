import LayeredSettings.Proofs.Json.Reading
import LayeredSettings.Proofs.Log.Level
import LayeredSettings.Proofs.Log.Refusal
import LayeredSettings.Proofs.Text.Lines

/-!
# Lines of a log

A logger that writes JSON writes one line for each call that its level enables, and each line tells
what was logged, whatever texts were logged: no text of a call can end a line or pass for another
member of it.

* `IsShowable`, `IsShowable.redact` — the extras that JSON shows as they are, also once redacted;
* `Logger.exists_line` — the line of one call, and what it tells;
* `Logger.output_lines` — the lines of a run of calls.
-/

namespace LayeredSettings.Log

/-! ## What can be shown -/

/-- Whether a value comes out of JSON as it went in, before and after redaction. -/
structure IsShowable (v : Value) : Prop where
  built : v.BuiltFrom Value.IsWord
  held : v.AllMaps IsHeld
  listed : v.AllMaps Members.IsListed

theorem not_isWord_map (members : Members Value) : ¬Value.IsWord (.map members) := by
  intro h
  cases h

theorem isShowable_of_isWord {v : Value} (h : v.IsWord) : IsShowable v := by
  have hscalar : v.IsScalar := by
    cases h with
    | null => exact .null
    | bool b => exact .bool b
    | str s => exact .str s
  exact ⟨.scalar h, hscalar.allMaps, hscalar.allMaps⟩

theorem isShowable_list_iff {items : List Value} :
    IsShowable (.list items) ↔ ∀ item ∈ items, IsShowable item := by
  constructor
  · rintro ⟨hbuilt, hheld, hlisted⟩ item hitem
    rw [Value.allMaps_list_iff] at hheld hlisted
    have hitems := hbuilt.of_list fun items h => by cases h
    exact ⟨hitems item hitem, hheld item hitem, hlisted item hitem⟩
  · intro h
    exact ⟨.list fun item hitem => (h item hitem).built,
      Value.allMaps_list_iff.mpr fun item hitem => (h item hitem).held,
      Value.allMaps_list_iff.mpr fun item hitem => (h item hitem).listed⟩

theorem isShowable_map_iff {members : Members Value} :
    IsShowable (.map members) ↔ (members.names.Nodup ∧ IsHeld members ∧ members.IsListed) ∧
      ∀ entry ∈ members, IsShowable entry.2 := by
  constructor
  · rintro ⟨hbuilt, hheld, hlisted⟩
    obtain ⟨hnames, hparts⟩ := hbuilt.of_map not_isWord_map
    obtain ⟨hself, hheld⟩ := (Value.allMaps_map_iff hnames).mp hheld
    obtain ⟨horder, hlisted⟩ := (Value.allMaps_map_iff hnames).mp hlisted
    exact ⟨⟨hnames, hself, horder⟩,
      fun entry hentry => ⟨hparts entry hentry, hheld entry hentry, hlisted entry hentry⟩⟩
  · rintro ⟨⟨hnames, hself, horder⟩, h⟩
    exact ⟨.map hnames fun entry hentry => (h entry hentry).built,
      (Value.allMaps_map_iff hnames).mpr ⟨hself, fun entry hentry => (h entry hentry).held⟩,
      (Value.allMaps_map_iff hnames).mpr ⟨horder, fun entry hentry => (h entry hentry).listed⟩⟩

/-- What is left after redaction can be shown as well. -/
theorem IsShowable.redact {v : Value} (h : IsShowable v) : IsShowable (redact v) := by
  have hbuilt := h.built
  induction hbuilt with
  | scalar hword =>
    cases hword with
    | _ => exact h
  | list _ ih =>
    rw [isShowable_list_iff] at h
    rw [Log.redact, redactItems_eq, isShowable_list_iff]
    intro item hitem
    obtain ⟨old, hold, rfl⟩ := List.mem_map.mp hitem
    exact ih old hold (h old hold)
  | map _ _ ih =>
    obtain ⟨⟨hnames, hself, horder⟩, hparts⟩ := isShowable_map_iff.mp h
    have hsame := hself.names_redactMembers
    rw [Log.redact, isShowable_map_iff, IsHeld, Members.IsListed, hsame]
    refine ⟨⟨hnames, hself, horder⟩, ?_⟩
    rw [hself.redactMembers_eq]
    intro entry hentry
    obtain ⟨old, hold, rfl⟩ := List.mem_map.mp hentry
    by_cases hname : isSensitive old.1 = true
    · rw [redactUnder, if_pos hname]
      exact isShowable_of_isWord (.str _)
    · rw [redactUnder, if_neg hname]
      exact ih old hold (hparts old hold)

namespace Logger

/-! ## One call -/

/-- One call of a logger: when it was made, at which level, and what it says. -/
structure Entry where
  stamp : Stamp
  level : Level
  message : String
  extra : Option (Members Value)

variable {logger : Logger} {l : Level}

/-- What a logger writes for the extra of a call. -/
def shownExtra (logger : Logger) : Option (Members Value) → Value
  | none => .null
  | some members => .map (if logger.redactSensitive then redactMembers members else members)

/-- What is told of a call. -/
def told (logger : Logger) (entry : Entry) : Members Value :=
  [("timestamp", .str entry.stamp.full), ("level", .str entry.level.name),
    ("message", .str entry.message), ("logger", .str logger.name),
    ("extra", logger.shownExtra entry.extra)]

/-- What the line of a call owes the call. -/
structure Tells (logger : Logger) (entry : Entry) (line : String) : Prop where
  /-- No control character stands in the line, and so no end of a line. -/
  shown : ∀ c ∈ line.toList, 0x20 ≤ c.toNat
  /-- The line is one JSON object, which has what is told of the call and nothing else. -/
  parsed : Json.read? line.toList = some (.map (logger.told entry))

/-- The line of a call, if its level is enabled. -/
def lineOf? (logger : Logger) (entry : Entry) : Option String :=
  logger.line? entry.stamp entry.level.name entry.message entry.extra

theorem lineOf?_eq_none (hlevel : logger.level = l.name) {entry : Entry} (h : ¬ l ≤ entry.level) :
    logger.lineOf? entry = none := by
  have henabled : logger.isEnabled entry.level.name = false :=
    Bool.eq_false_of_not_eq_true fun henabled => h ((isEnabled_iff hlevel _).mp henabled)
  rw [lineOf?, line?, record?_eq_none henabled, Option.map_none]

/-- The members of the line of a call that is made into a record. -/
theorem lineMembers_eq_told {entry : Entry} {record : Record}
    (h : logger.record? entry.level.name entry.message entry.extra = some record) :
    lineMembers entry.stamp record = logger.told entry := by
  unfold record? at h
  split at h
  · obtain rfl := Option.some.inj h
    cases hextra : entry.extra with
    | none => simp [lineMembers, told, shown, shownExtra, hextra]
    | some members =>
      by_cases hredact : logger.redactSensitive = true
      · simp [lineMembers, told, shown, shownExtra, hextra, hredact]
      · simp [lineMembers, told, shown, shownExtra, hextra, hredact]
  · cases h

/-- An extra that can be shown has an end. -/
theorem hasEnd_of_isShowable {extra : Option (Members Value)}
    (h : ∀ members, extra = some members → IsShowable (.map members)) :
    logger.hasEnd extra = true := by
  cases extra with
  | none => exact hasEnd_none
  | some members =>
    refine hasEnd_of_finite (Value.BuiltFrom.isEndless_eq_false ?_ (h members rfl).built)
    intro v hword
    cases hword with
    | null => exact .null
    | bool b => exact .bool b
    | str s => exact .str s

theorem lineOf?_eq (hformat : logger.format = .json) (hlevel : logger.level = l.name)
    {entry : Entry} (hextra : ∀ members, entry.extra = some members → IsShowable (.map members))
    (h : l ≤ entry.level) :
    logger.lineOf? entry = some (Json.render (.map (logger.told entry)) ++ "\n") := by
  have henabled : logger.isEnabled entry.level.name = true := (isEnabled_iff hlevel _).mpr h
  obtain ⟨record, hrecord⟩ :
      ∃ record, logger.record? entry.level.name entry.message entry.extra = some record :=
    ⟨_, record?_eq_some henabled (hasEnd_of_isShowable hextra)⟩
  rw [lineOf?, line?, hrecord, Option.map_some, line, hformat, ← lineMembers_eq_told hrecord]

theorem isShowable_shownExtra {extra : Option (Members Value)}
    (h : ∀ members, extra = some members → IsShowable (.map members)) :
    IsShowable (logger.shownExtra extra) := by
  cases extra with
  | none => exact isShowable_of_isWord .null
  | some members =>
    have hmembers := h members rfl
    rw [shownExtra]
    split
    · have hredact := hmembers.redact
      rwa [Log.redact] at hredact
    · exact hmembers

theorem isShowable_told {entry : Entry}
    (h : ∀ members, entry.extra = some members → IsShowable (.map members)) :
    IsShowable (.map (logger.told entry)) := by
  have hnames : Members.names (logger.told entry) =
      ["timestamp", "level", "message", "logger", "extra"] := rfl
  have hplain : ∀ name ∈ Members.names (logger.told entry), Members.arrayIndex? name = none := by
    rw [hnames]
    decide +kernel
  rw [isShowable_map_iff, IsHeld, hnames]
  refine ⟨⟨by decide, by decide, Members.isListed_of_forall_eq_none hplain⟩, ?_⟩
  simp only [told, List.forall_mem_cons, List.not_mem_nil, false_imp_iff, implies_true, and_true]
  exact ⟨isShowable_of_isWord (.str _), isShowable_of_isWord (.str _),
    isShowable_of_isWord (.str _), isShowable_of_isWord (.str _), isShowable_shownExtra h⟩

/-- An enabled call makes a line that tells of it. -/
theorem exists_line (hformat : logger.format = .json) (hlevel : logger.level = l.name)
    {entry : Entry} (hextra : ∀ members, entry.extra = some members → IsShowable (.map members))
    (h : l ≤ entry.level) :
    ∃ line, logger.lineOf? entry = some (line ++ "\n") ∧ logger.Tells entry line := by
  have hshow : IsShowable (.map (logger.told entry)) := isShowable_told hextra
  obtain ⟨form, hform, hreads⟩ := Json.exists_reads hshow.built hshow.listed
  have hrender : Json.render (.map (logger.told entry)) = String.ofList form := by
    rw [Json.render, hform]
  refine ⟨String.ofList form, ?_, ?_, ?_⟩
  · rw [lineOf?_eq hformat hlevel hextra h, hrender]
  · rw [String.toList_ofList]
    exact hreads.shown
  · rw [String.toList_ofList]
    exact Json.read?_of_reads hreads

theorem Tells.not_mem_feed {entry : Entry} {line : String} (h : logger.Tells entry line) :
    '\n' ∉ line.toList := by
  intro hmem
  exact absurd (h.shown '\n' hmem) (by decide)

/-! ## Runs of calls -/

/-- What a run of calls writes. -/
def output (logger : Logger) (entries : List Entry) : String :=
  String.join (entries.filterMap logger.lineOf?)

/-- The lines that a run of calls writes are those of the enabled calls, in their order, and each
tells of its call. After the end of the last line there is nothing. -/
theorem output_lines (hformat : logger.format = .json) (hlevel : logger.level = l.name)
    {entries : List Entry}
    (hextras : ∀ entry ∈ entries, ∀ members, entry.extra = some members →
      IsShowable (.map members)) :
    ∃ lines, Text.splitAt '\n' (logger.output entries) = lines ++ [""] ∧
      List.Forall₂ logger.Tells (entries.filter fun entry => l ≤ entry.level) lines := by
  induction entries with
  | nil => exact ⟨[], rfl, .nil⟩
  | cons entry rest ih =>
    obtain ⟨lines, hlines, htells⟩ :=
      ih fun other hother => hextras other (List.mem_cons_of_mem entry hother)
    by_cases hle : l ≤ entry.level
    · obtain ⟨line, hline, htell⟩ :=
        exists_line hformat hlevel (hextras entry List.mem_cons_self) hle
      have hfeed : "\n" = String.singleton '\n' := rfl
      refine ⟨line :: lines, ?_, ?_⟩
      · rw [output, List.filterMap_cons_some hline, String.join_cons, hfeed,
          Text.splitAt_append_cons htell.not_mem_feed, ← output, hlines, List.cons_append]
      · rw [List.filter_cons_of_pos (by simpa using hle)]
        exact .cons htell htells
    · refine ⟨lines, ?_, ?_⟩
      · rw [output, List.filterMap_cons_none (lineOf?_eq_none hlevel hle), ← output, hlines]
      · rwa [List.filter_cons_of_neg (by simpa using hle)]

/-- The extra of a call that has a quotation mark, an end of a line and a secret in it. -/
def trickyExtra : Members Value :=
  [("10", .null), ("k\"\n", .list [.bool true, .map [("token", .str "t")]])]

/-- Three calls. The text of the second one would begin another line if it were written as it is. -/
def trickyEntries : List Entry :=
  [{ stamp := ⟨"t1", "t1"⟩, level := .debug, message := "m", extra := none },
    { stamp := ⟨"t2", "t2"⟩, level := .info
      message := "m\n\x7b\"level\":\"fatal\"\x7d", extra := none },
    { stamp := ⟨"t3", "t3"⟩, level := .error, message := "m", extra := some trickyExtra }]

theorem isShowable_trickyExtra : IsShowable (.map trickyExtra) := by
  have htoken : IsShowable (.map [("token", .str "t")]) := by
    refine isShowable_map_iff.mpr ⟨⟨by decide, by decide, List.pairwise_singleton _ _⟩, ?_⟩
    simp [isShowable_of_isWord (.str _)]
  have hlist : IsShowable (.list [.bool true, .map [("token", .str "t")]]) := by
    refine isShowable_list_iff.mpr ?_
    simp [isShowable_of_isWord (.bool _), htoken]
  have horder : Members.IsListed trickyExtra := by
    -- the index stands first
    have hlast : Members.arrayIndex? "k\"\n" = none := by decide +kernel
    refine List.pairwise_pair.mpr (Members.mayPrecede_of_eq_none hlast)
  refine isShowable_map_iff.mpr ⟨⟨by decide, by decide, horder⟩, ?_⟩
  simp [trickyExtra, isShowable_of_isWord .null, hlist]

/-- A logger at `info` with a quotation mark in its name. -/
def trickyLogger : Logger := { name := "a\"b" }

/-- It writes two lines for the three calls. -/
theorem output_lines_tricky :
    trickyLogger.format = .json ∧ trickyLogger.level = Level.info.name ∧
    (∀ entry ∈ trickyEntries, ∀ members, entry.extra = some members → IsShowable (.map members)) ∧
      ∃ first second,
        Text.splitAt '\n' (trickyLogger.output trickyEntries) = [first, second, ""] ∧
        Json.read? first.toList = some (.map [("timestamp", .str "t2"), ("level", .str "info"),
          ("message", .str "m\n\x7b\"level\":\"fatal\"\x7d"), ("logger", .str "a\"b"),
          ("extra", .null)]) ∧
        Json.read? second.toList = some (.map [("timestamp", .str "t3"), ("level", .str "error"),
          ("message", .str "m"), ("logger", .str "a\"b"),
          ("extra", .map [("10", .null),
            ("k\"\n", .list [.bool true, .map [("token", .str "***REDACTED***")]])])]) := by
  have hextras : ∀ entry ∈ trickyEntries, ∀ members, entry.extra = some members →
      IsShowable (.map members) := by
    simp [trickyEntries, isShowable_trickyExtra]
  refine ⟨rfl, rfl, hextras, ?_⟩
  obtain ⟨lines, hlines, htells⟩ := @output_lines trickyLogger .info rfl rfl trickyEntries hextras
  have hfilter : (trickyEntries.filter fun entry => Level.info ≤ entry.level) =
      trickyEntries.tail := rfl
  rw [hfilter] at htells
  obtain ⟨first, others, hfirst, hothers, rfl⟩ := List.forall₂_cons_left_iff.mp htells
  obtain ⟨second, others, hsecond, hnone, rfl⟩ := List.forall₂_cons_left_iff.mp hothers
  obtain rfl := List.forall₂_nil_left_iff.mp hnone
  exact ⟨first, second, hlines, hfirst.parsed, hsecond.parsed⟩

end Logger

end LayeredSettings.Log
