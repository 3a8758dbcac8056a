import LayeredSettings.Proofs.Members
import LayeredSettings.Proofs.Value.Shape

/-!
# Paths into values

A path leads into a value by names of members and by indices of items. Where it leads decides what a
value has at a place, and which maps there are in it at any depth.

* `at?_append` — a path goes on from where another one leads;
* `AllMaps`, `allMaps_map_iff`, `allMaps_list_iff` — what holds of all maps in a value.
-/

namespace LayeredSettings

/-- A step into a value: to a member of a map, or to an item of a list. -/
inductive PathStep where
  | member (name : String)
  | item (index : Nat)
deriving DecidableEq

namespace Value

/-- What stands at the end of a step. -/
def step? : Value → PathStep → Option Value
  | .map members, .member name => Members.get? members name
  | .list items, .item index => items[index]?
  | _, _ => none

/-- What stands at the end of a path. -/
def at? (v : Value) : List PathStep → Option Value
  | [] => some v
  | step :: rest => (v.step? step).bind fun part => part.at? rest

@[simp] theorem at?_nil (v : Value) : v.at? [] = some v := rfl

@[simp] theorem at?_cons (v : Value) (step : PathStep) (rest : List PathStep) :
    v.at? (step :: rest) = (v.step? step).bind fun part => part.at? rest := rfl

/-- A path goes on from where another one leads. -/
theorem at?_append (v : Value) (path rest : List PathStep) :
    v.at? (path ++ rest) = (v.at? path).bind fun part => part.at? rest := by
  induction path generalizing v with
  | nil => rfl
  | cons step path ih =>
    rw [List.cons_append, at?_cons, at?_cons, Option.bind_assoc]
    exact Option.bind_congr fun part _ => ih part

/-- No step leads into a scalar. -/
theorem IsScalar.step?_eq_none {v : Value} (h : v.IsScalar) (step : PathStep) :
    v.step? step = none := by
  cases h with
  | _ => rfl

/-- A step from plain data leads to plain data. -/
theorem IsTree.of_step? {v part : Value} (h : v.IsTree) {step : PathStep}
    (hstep : v.step? step = some part) : part.IsTree := by
  cases h with
  | scalar h =>
    rw [h.step?_eq_none] at hstep
    cases hstep
  | list h =>
    cases step with
    | member name => cases hstep
    | item index => exact h part (List.mem_of_getElem? hstep)
  | map hnames h =>
    cases step with
    | member name => exact h (name, part) (Members.mem_of_get? hstep)
    | item index => cases hstep

theorem IsTree.of_at? {v part : Value} (h : v.IsTree) {path : List PathStep}
    (hpath : v.at? path = some part) : part.IsTree := by
  induction path generalizing v with
  | nil =>
    obtain rfl := Option.some.inj hpath
    exact h
  | cons step rest ih =>
    obtain ⟨next, hstep, hrest⟩ := Option.bind_eq_some_iff.mp hpath
    exact ih (h.of_step? hstep) hrest

/-! ## The maps in a value -/

/-- Whether something holds of all maps in a value, at any depth. -/
def AllMaps (q : Members Value → Prop) (v : Value) : Prop :=
  ∀ path members, v.at? path = some (.map members) → q members

variable {q : Members Value → Prop}

theorem AllMaps.of_at? {v part : Value} (h : v.AllMaps q) {path : List PathStep}
    (hpath : v.at? path = some part) : part.AllMaps q := by
  intro rest members hrest
  apply h (path ++ rest) members
  rw [at?_append, hpath]
  exact hrest

theorem AllMaps.of_step? {v part : Value} (h : v.AllMaps q) {step : PathStep}
    (hstep : v.step? step = some part) : part.AllMaps q := by
  have hpath : v.at? [step] = some part := by
    rw [at?_cons, hstep]
    rfl
  exact h.of_at? hpath

/-- The maps in a value are the value itself, if it is a map, and those in its parts. -/
theorem allMaps_iff {v : Value} :
    v.AllMaps q ↔ (∀ members, v = .map members → q members) ∧
      ∀ step part, v.step? step = some part → part.AllMaps q := by
  constructor
  · intro h
    refine ⟨?_, fun step part hstep => h.of_step? hstep⟩
    rintro members rfl
    exact h [] members rfl
  · rintro ⟨hself, hparts⟩ path members hpath
    cases path with
    | nil => exact hself members (Option.some.inj hpath)
    | cons step rest =>
      rw [at?_cons] at hpath
      obtain ⟨part, hstep, hrest⟩ := Option.bind_eq_some_iff.mp hpath
      exact hparts step part hstep rest members hrest

theorem IsScalar.allMaps {v : Value} (h : v.IsScalar) : v.AllMaps q := by
  refine allMaps_iff.mpr ⟨?_, ?_⟩
  · rintro members rfl
    exact absurd h (not_isScalar_map members)
  · intro step part hstep
    rw [h.step?_eq_none] at hstep
    cases hstep

@[simp] theorem allMaps_null : Value.null.AllMaps q := IsScalar.null.allMaps

@[simp] theorem allMaps_bool (b : Bool) : (Value.bool b).AllMaps q := (IsScalar.bool b).allMaps

@[simp] theorem allMaps_str (s : String) : (Value.str s).AllMaps q := (IsScalar.str s).allMaps

theorem allMaps_list_iff {items : List Value} :
    (Value.list items).AllMaps q ↔ ∀ item ∈ items, item.AllMaps q := by
  rw [allMaps_iff]
  constructor
  · rintro ⟨-, hparts⟩ item hitem
    obtain ⟨index, hindex⟩ := List.mem_iff_getElem?.mp hitem
    exact hparts (.item index) item hindex
  · intro h
    refine ⟨?_, fun step part hstep => ?_⟩
    · intro members hmap
      cases hmap
    · cases step with
      | member name => cases hstep
      | item index => exact h part (List.mem_of_getElem? hstep)

theorem allMaps_map_iff {members : Members Value} (hnames : members.names.Nodup) :
    (Value.map members).AllMaps q ↔ q members ∧ ∀ entry ∈ members, entry.2.AllMaps q := by
  rw [allMaps_iff]
  constructor
  · rintro ⟨hself, hparts⟩
    refine ⟨hself members rfl, fun entry hentry => ?_⟩
    exact hparts (.member entry.1) entry.2 ((Members.get?_eq_some_iff hnames).mpr hentry)
  · rintro ⟨hself, hparts⟩
    refine ⟨?_, fun step part hstep => ?_⟩
    · intro others hothers
      cases hothers
      exact hself
    · cases step with
      | member name => exact hparts (name, part) (Members.mem_of_get? hstep)
      | item index => cases hstep

end Value

end LayeredSettings
