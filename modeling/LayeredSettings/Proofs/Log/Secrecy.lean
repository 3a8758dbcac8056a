import LayeredSettings.Log.Logger

/-!
# Secrecy

What a logger with redaction writes does not depend on what stands under sensitive names. Two
extras of the same shape that differ under such names only, at any depth, cannot be told apart by
the lines that are written.

* `Alike` — values that are the same but for what stands under sensitive names;
* `redact_eq_of_alike` — redaction makes one value of them;
* `line?_eq_of_alike` — and so they make one line, or none.
-/

namespace LayeredSettings.Log

mutual

/-- Two values that are the same but for what stands under sensitive names. -/
inductive Alike : Value → Value → Prop
  | same (v : Value) : Alike v v
  | list {items others : List Value} : AlikeItems items others →
      Alike (.list items) (.list others)
  | map {members others : List (String × Value)} : AlikeMembers members others →
      Alike (.map members) (.map others)

/-- Lists of the same length whose items are alike, one by one. -/
inductive AlikeItems : List Value → List Value → Prop
  | nil : AlikeItems [] []
  | cons {item other : Value} {items others : List Value} : Alike item other →
      AlikeItems items others → AlikeItems (item :: items) (other :: others)

/-- Members of the same names in the same order whose parts are alike. Under a sensitive name there
may be any two values. -/
inductive AlikeMembers : List (String × Value) → List (String × Value) → Prop
  | nil : AlikeMembers [] []
  | shown {name : String} {part other : Value} {members others : List (String × Value)} :
      Alike part other → AlikeMembers members others →
        AlikeMembers ((name, part) :: members) ((name, other) :: others)
  | hidden {name : String} {part other : Value} {members others : List (String × Value)} :
      isSensitive name = true → AlikeMembers members others →
        AlikeMembers ((name, part) :: members) ((name, other) :: others)

end

/-- Two extras that are alike: both are missing, or both have alike members. -/
inductive AlikeExtras : Option (Members Value) → Option (Members Value) → Prop
  | none : AlikeExtras none none
  | some {members others : Members Value} : AlikeMembers members others →
      AlikeExtras (some members) (some others)

/-! ## Redaction -/

theorem redactMembers_cons (name : String) (part : Value) (rest : List (String × Value)) :
    redactMembers ((name, part) :: rest) =
      if isDropped name then redactMembers rest
      else (name, if isSensitive name then redacted else redact part) :: redactMembers rest := by
  rw [redactMembers]

mutual

/-- Alike values are redacted to the same value. -/
theorem redact_eq_of_alike {v w : Value} (h : Alike v w) : redact v = redact w := by
  match h with
  | .same v => rfl
  | .list hitems => rw [redact, redact, redactItems_eq_of_alike hitems]
  | .map hmembers => rw [redact, redact, redactMembers_eq_of_alike hmembers]

theorem redactItems_eq_of_alike {items others : List Value} (h : AlikeItems items others) :
    redactItems items = redactItems others := by
  match h with
  | .nil => rfl
  | .cons hitem hrest =>
    rw [redactItems, redactItems, redact_eq_of_alike hitem, redactItems_eq_of_alike hrest]

theorem redactMembers_eq_of_alike {members others : List (String × Value)}
    (h : AlikeMembers members others) : redactMembers members = redactMembers others := by
  match h with
  | .nil => rfl
  | .shown hpart hrest =>
    rw [redactMembers_cons, redactMembers_cons, redact_eq_of_alike hpart,
      redactMembers_eq_of_alike hrest]
  | .hidden hname hrest =>
    -- the parts are not looked at
    rw [redactMembers_cons, redactMembers_cons, if_pos hname, if_pos hname,
      redactMembers_eq_of_alike hrest]

end

theorem AlikeExtras.map_redactMembers {extra other : Option (Members Value)}
    (h : AlikeExtras extra other) : extra.map redactMembers = other.map redactMembers := by
  cases h with
  | none => rfl
  | some hmembers =>
    show Option.some _ = Option.some _
    rw [redactMembers_eq_of_alike hmembers]

/-! ## Lines -/

namespace Logger

/-- A logger with redaction shows two alike extras as one. -/
theorem shown_eq_of_alike {logger : Logger} (hredact : logger.redactSensitive = true)
    {extra other : Option (Members Value)} (h : AlikeExtras extra other) :
    logger.shown extra = logger.shown other := by
  rw [shown, shown, if_pos hredact, if_pos hredact, h.map_redactMembers]

/-- It fails for both of two calls with alike extras, or for none. -/
theorem refusal?_eq_of_alike {logger : Logger} (hredact : logger.redactSensitive = true)
    (level : String) {extra other : Option (Members Value)} (h : AlikeExtras extra other) :
    logger.refusal? level extra = logger.refusal? level other := by
  unfold refusal? hasEnd
  rw [shown_eq_of_alike hredact h]

/-- A logger with redaction makes one record of two calls with alike extras, or none. -/
theorem record?_eq_of_alike {logger : Logger} (hredact : logger.redactSensitive = true)
    (level message : String) {extra other : Option (Members Value)} (h : AlikeExtras extra other) :
    logger.record? level message extra = logger.record? level message other := by
  unfold record? hasEnd
  rw [shown_eq_of_alike hredact h]

/-- A logger with redaction writes the same line for two calls with alike extras, or writes nothing
for both, whatever its name, its level and its format. -/
theorem line?_eq_of_alike {logger : Logger} (hredact : logger.redactSensitive = true)
    (level message : String) {extra other : Option (Members Value)} (h : AlikeExtras extra other)
    (stamp : Stamp) :
    logger.line? stamp level message extra = logger.line? stamp level message other := by
  rw [line?, line?, record?_eq_of_alike hredact level message h]

/-- What is known of a user, with a secret under two sensitive names, one of them in a list. -/
def userExtra (secret : Value) : Members Value :=
  [("user", .list [.null, .map [("name", .str "u"), ("Access_Key", secret)]]), ("token", secret)]

/-- A plain line about the user is written, and is the same with one secret and with another of a
different shape. -/
theorem line?_userExtra :
    AlikeExtras (some (userExtra (.str "s"))) (some (userExtra (.list [.map []]))) ∧
      ∀ stamp,
        (Logger.line? { format := .text } stamp "error" "m"
          (some (userExtra (.str "s")))).isSome = true ∧
        Logger.line? { format := .text } stamp "error" "m" (some (userExtra (.str "s"))) =
          Logger.line? { format := .text } stamp "error" "m"
            (some (userExtra (.list [.map []]))) := by
  have hkey : isSensitive "Access_Key" = true := by decide +kernel
  have htoken : isSensitive "token" = true := by decide +kernel
  have huser : Alike (.map [("name", .str "u"), ("Access_Key", .str "s")])
      (.map [("name", .str "u"), ("Access_Key", .list [.map []])]) :=
    .map (.shown (.same _) (.hidden hkey .nil))
  have hextras : AlikeExtras (some (userExtra (.str "s")))
      (some (userExtra (.list [.map []]))) :=
    .some (.shown (.list (.cons (.same .null) (.cons huser .nil))) (.hidden htoken .nil))
  have henabled : Logger.isEnabled { format := .text } "error" = true := by decide +kernel
  have hend : Logger.hasEnd { format := .text } (some (userExtra (.str "s"))) = true := by
    decide +kernel
  refine ⟨hextras, fun stamp => ⟨?_, ?_⟩⟩
  · simp [line?, record?, henabled, hend]
  · exact @line?_eq_of_alike { format := .text } rfl "error" "m" _ _ hextras stamp

end Logger

end LayeredSettings.Log
