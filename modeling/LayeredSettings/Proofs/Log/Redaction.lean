import LayeredSettings.Proofs.Log.Secrecy
import LayeredSettings.Proofs.Value.Path

/-!
# What redaction leaves alone

Redaction replaces what stands under sensitive names and changes nothing else. Wherever a path leads
through no sensitive name, there is after it what was there before, redacted in its turn: maps of
the same names in the same order, lists of the same length, and the same scalars.

* `IsHeld.redactMembers_eq`, `redactItems_eq` — redaction part by part;
* `at?_redact`, `at?_redact_sensitive` — what stands at the end of a path;
* `redact_redact`, `redact_eq_self` — redacting twice, and where nothing is sensitive;
* `redactMembers_redactsOnly` — all of this over every extra of plain data.
-/

namespace LayeredSettings.Log

/-! ## Part by part -/

theorem redactItems_eq (items : List Value) : redactItems items = items.map redact := by
  induction items with
  | nil => rw [redactItems, List.map_nil]
  | cons item rest ih => rw [redactItems, List.map_cons, ih]

/-- What stands under a name after redaction. -/
def redactUnder (name : String) (part : Value) : Value :=
  if isSensitive name then redacted else redact part

/-- Whether a redacted map can hold all names of a map. -/
def IsHeld (members : Members Value) : Prop := "__proto__" ∉ members.names

instance (members : Members Value) : Decidable (IsHeld members) :=
  inferInstanceAs (Decidable ("__proto__" ∉ members.names))

/-- Such a map is redacted member by member. -/
theorem IsHeld.redactMembers_eq {members : Members Value} (h : IsHeld members) :
    redactMembers members = members.map fun entry => (entry.1, redactUnder entry.1 entry.2) := by
  induction members with
  | nil => rw [redactMembers, List.map_nil]
  | cons entry rest ih =>
    rw [IsHeld, Members.names, List.map_cons, List.mem_cons, not_or] at h
    have hname : ¬ isDropped entry.1 = true := by
      simpa [isDropped] using Ne.symm h.1
    rw [redactMembers_cons, if_neg hname, ih h.2]
    rfl

theorem IsHeld.names_redactMembers {members : Members Value} (h : IsHeld members) :
    Members.names (redactMembers members) = members.names := by
  rw [h.redactMembers_eq, Members.names, Members.names, List.map_map]
  rfl

theorem IsHeld.redact {members : Members Value} (h : IsHeld members) :
    IsHeld (redactMembers members) := by
  rw [IsHeld, h.names_redactMembers]
  exact h

theorem redact_of_isScalar {v : Value} (h : v.IsScalar) : redact v = v := by
  cases h with
  | _ => simp only [redact]

/-! ## Along paths -/

/-- A path without a sensitive name. -/
def IsClear (path : List PathStep) : Prop := ∀ name, .member name ∈ path → isSensitive name = false

/-- What is made of the value at the end of a step. -/
def redactAfter : PathStep → Value → Value
  | .member name => redactUnder name
  | .item _ => redact

theorem redactAfter_of_isClear {step : PathStep} {rest : List PathStep}
    (h : IsClear (step :: rest)) : redactAfter step = redact := by
  cases step with
  | item index => rfl
  | member name =>
    funext part
    rw [redactAfter, redactUnder, h name List.mem_cons_self]
    rfl

section

variable {v : Value}

/-- A step leads to something after redaction exactly if it did before. -/
theorem step?_redact (htree : v.IsTree) (hheld : v.AllMaps IsHeld) (step : PathStep) :
    (redact v).step? step = (v.step? step).map (redactAfter step) := by
  cases htree with
  | scalar h => rw [redact_of_isScalar h, h.step?_eq_none, Option.map_none]
  | list h =>
    rw [redact, redactItems_eq]
    cases step with
    | member name => rfl
    | item index => exact List.getElem?_map
  | @map members hnames h =>
    have hself : IsHeld members := hheld [] members rfl
    rw [redact, hself.redactMembers_eq]
    cases step with
    | member name => exact Members.get?_map members redactUnder name
    | item index => rfl

/-- Where a path leads through no sensitive name, redaction acts on what was there before. -/
theorem at?_redact (htree : v.IsTree) (hheld : v.AllMaps IsHeld) {path : List PathStep}
    (hclear : IsClear path) : (redact v).at? path = (v.at? path).map redact := by
  induction path generalizing v with
  | nil => rfl
  | cons step rest ih =>
    rw [Value.at?_cons, Value.at?_cons, step?_redact htree hheld, redactAfter_of_isClear hclear]
    cases hstep : v.step? step with
    | none => rfl
    | some part =>
      have hrest : IsClear rest := fun name hname => hclear name (List.mem_cons_of_mem step hname)
      exact ih (htree.of_step? hstep) (hheld.of_step? hstep) hrest

/-- At the first sensitive name of a path the value is replaced. -/
theorem at?_redact_sensitive (htree : v.IsTree) (hheld : v.AllMaps IsHeld) {path : List PathStep}
    (hclear : IsClear path) {name : String} (hname : isSensitive name = true) :
    (redact v).at? (path ++ [.member name]) =
      (v.at? (path ++ [.member name])).map fun _ => redacted := by
  rw [Value.at?_append, Value.at?_append, at?_redact htree hheld hclear]
  cases hpart : v.at? path with
  | none => rfl
  | some part =>
    have hafter : redactAfter (.member name) = fun _ => redacted := by
      funext part
      rw [redactAfter, redactUnder, if_pos hname]
    have hstep : (redact part).step? (.member name) =
        (part.step? (.member name)).map fun _ => redacted := by
      rw [step?_redact (htree.of_at? hpart) (hheld.of_at? hpart), hafter]
    simp only [Option.map_some, Option.bind_some, Value.at?_cons, Value.at?_nil,
      Option.bind_fun_some, hstep]

/-! ## Redacting twice -/

theorem redact_redact (htree : v.IsTree) (hheld : v.AllMaps IsHeld) :
    redact (redact v) = redact v := by
  induction htree with
  | scalar h => rw [redact_of_isScalar h, redact_of_isScalar h]
  | @list items h ih =>
    rw [Value.allMaps_list_iff] at hheld
    rw [redact, redact, redactItems_eq, redactItems_eq, List.map_map]
    refine congrArg Value.list (List.map_congr_left fun item hitem => ?_)
    exact ih item hitem (hheld item hitem)
  | @map members hnames h ih =>
    obtain ⟨hself, hparts⟩ := (Value.allMaps_map_iff hnames).mp hheld
    rw [redact, redact, hself.redact.redactMembers_eq, hself.redactMembers_eq, List.map_map]
    refine congrArg Value.map (List.map_congr_left fun entry hentry => Prod.ext rfl ?_)
    show redactUnder entry.1 (redactUnder entry.1 entry.2) = redactUnder entry.1 entry.2
    by_cases hname : isSensitive entry.1 = true
    · rw [redactUnder, redactUnder, if_pos hname, if_pos hname]
    · rw [redactUnder, redactUnder, if_neg hname, if_neg hname]
      exact ih entry hentry (hparts entry hentry)

/-- A map without sensitive names. -/
def IsOpen (members : Members Value) : Prop := ∀ name ∈ members.names, isSensitive name = false

theorem redact_eq_self (htree : v.IsTree) (hheld : v.AllMaps IsHeld) (hopen : v.AllMaps IsOpen) :
    redact v = v := by
  induction htree with
  | scalar h => exact redact_of_isScalar h
  | @list items h ih =>
    rw [Value.allMaps_list_iff] at hheld hopen
    have hitems : items.map redact = items.map id :=
      List.map_congr_left fun item hitem => ih item hitem (hheld item hitem) (hopen item hitem)
    rw [redact, redactItems_eq, hitems, List.map_id]
  | @map members hnames h ih =>
    obtain ⟨hself, hheld⟩ := (Value.allMaps_map_iff hnames).mp hheld
    obtain ⟨hclear, hopen⟩ := (Value.allMaps_map_iff hnames).mp hopen
    have hmembers : (members.map fun entry => (entry.1, redactUnder entry.1 entry.2)) =
        members.map id := by
      refine List.map_congr_left fun entry hentry => Prod.ext rfl ?_
      have hname := hclear entry.1 (List.mem_map_of_mem hentry)
      show redactUnder entry.1 entry.2 = entry.2
      rw [redactUnder, hname, if_neg Bool.false_ne_true]
      exact ih entry hentry (hheld entry hentry) (hopen entry hentry)
    rw [redact, hself.redactMembers_eq, hmembers, List.map_id]

end

/-! ## Extras -/

/-- What redaction owes an extra: `shown` is the extra but for what stands under sensitive names. -/
structure RedactsOnly (extra shown : Members Value) : Prop where
  /-- Maps that are reached without a sensitive name keep their names, in their order. -/
  maps : ∀ path members, IsClear path → (Value.map extra).at? path = some (.map members) →
    ∃ others, (Value.map shown).at? path = some (.map others) ∧
      Members.names others = Members.names members
  /-- Lists that are reached without a sensitive name keep their length. -/
  lists : ∀ path items, IsClear path → (Value.map extra).at? path = some (.list items) →
    ∃ others, (Value.map shown).at? path = some (.list others) ∧ others.length = items.length
  /-- Scalars that are reached without a sensitive name stay what they are. -/
  scalars : ∀ path s, IsClear path → s.IsScalar → (Value.map extra).at? path = some s →
    (Value.map shown).at? path = some s
  /-- Nothing comes in that was not there. -/
  nothing_new : ∀ path, IsClear path → (Value.map extra).at? path = none →
    (Value.map shown).at? path = none
  /-- At the first sensitive name of a path stands the marker, whatever stood there. -/
  marked : ∀ path name, IsClear path → isSensitive name = true →
    ((Value.map extra).at? (path ++ [.member name])).isSome = true →
      (Value.map shown).at? (path ++ [.member name]) = some (.str "***REDACTED***")
  /-- Without sensitive names the extra comes back. -/
  unchanged : (Value.map extra).AllMaps IsOpen → shown = extra
  /-- To redact once more changes nothing. -/
  settled : redactMembers shown = shown

/-- Redaction does only what it has to do, over every extra of plain data all of whose names can be
held by a redacted map. -/
theorem redactMembers_redactsOnly {extra : Members Value} (htree : (Value.map extra).IsTree)
    (hheld : (Value.map extra).AllMaps IsHeld) : RedactsOnly extra (redactMembers extra) := by
  have hredact : Value.map (redactMembers extra) = redact (.map extra) := by
    rw [redact]
  have hat {path : List PathStep} (hclear : IsClear path) :
      (Value.map (redactMembers extra)).at? path = ((Value.map extra).at? path).map redact := by
    rw [hredact]
    exact at?_redact htree hheld hclear
  refine ⟨?_, ?_, ?_, ?_, ?_, ?_, ?_⟩
  · intro path members hclear hpath
    have hself : IsHeld members := hheld path members hpath
    refine ⟨redactMembers members, ?_, hself.names_redactMembers⟩
    rw [hat hclear, hpath, Option.map_some, redact]
  · intro path items hclear hpath
    refine ⟨items.map redact, ?_, List.length_map redact⟩
    rw [hat hclear, hpath, Option.map_some, redact, redactItems_eq]
  · intro path s hclear hs hpath
    rw [hat hclear, hpath, Option.map_some, redact_of_isScalar hs]
  · intro path hclear hpath
    rw [hat hclear, hpath, Option.map_none]
  · intro path name hclear hname hsome
    obtain ⟨part, hpart⟩ := Option.isSome_iff_exists.mp hsome
    rw [hredact, at?_redact_sensitive htree hheld hclear hname, hpart]
    rfl
  · intro hopen
    have hsame := redact_eq_self htree hheld hopen
    rw [redact] at hsame
    exact Value.map.inj hsame
  · have htwice := redact_redact htree hheld
    rw [redact, redact] at htwice
    exact Value.map.inj htwice

/-- What is known of some users, with a secret in a list. -/
def usersExtra : Members Value :=
  [("users", .list [.null, .map [("name", .str "u"), ("Access_Key", .list [.bool true])]])]

/-- Where the users are shown, the name stays and the secret is replaced as a whole. -/
theorem redactMembers_usersExtra :
    (Value.map usersExtra).IsTree ∧ (Value.map usersExtra).AllMaps IsHeld ∧
      RedactsOnly usersExtra (redactMembers usersExtra) ∧
      (Value.map (redactMembers usersExtra)).at? [.member "users", .item 1, .member "name"] =
        some (.str "u") ∧
      (Value.map (redactMembers usersExtra)).at? [.member "users", .item 1, .member "Access_Key"] =
        some (.str "***REDACTED***") := by
  have htree : (Value.map usersExtra).IsTree := by
    simp [usersExtra, Value.isTree_map_iff, Value.isTree_list_iff, Members.names]
  have hheld : (Value.map usersExtra).AllMaps IsHeld := by
    simp (disch := decide) [usersExtra, Value.allMaps_map_iff, Value.allMaps_list_iff, IsHeld,
      Members.names]
  have honly := redactMembers_redactsOnly htree hheld
  have husers : isSensitive "users" = false := by decide +kernel
  have hname : isSensitive "name" = false := by decide +kernel
  have hkey : isSensitive "Access_Key" = true := by decide +kernel
  refine ⟨htree, hheld, honly, ?_, ?_⟩
  · apply honly.scalars _ _ ?_ (.str "u") rfl
    simp [IsClear, husers, hname]
  · apply honly.marked [.member "users", .item 1] "Access_Key" ?_ hkey rfl
    simp [IsClear, husers]

end LayeredSettings.Log
