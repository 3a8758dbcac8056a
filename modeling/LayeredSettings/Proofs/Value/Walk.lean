import LayeredSettings.Proofs.Members
import LayeredSettings.Proofs.Value.Shape
import LayeredSettings.Value.Walk

/-!
# How a walk ends

A walk through plain data follows a chain of names from map to map. It ends in exactly one of three
ways, which are told here by this chain alone: the chain leads to the end of the path, or to a map
that has no member of the next name, or to a value that is no map although names are left.

* `Leads.walk_append` — a walk goes on from where a chain leads;
* `walk_eq_iff_ends` — the walk ends as the chain says;
* `existsUnique_ends` — there is exactly one such end.
-/

namespace LayeredSettings.Value

/-- Whether a chain of names leads from a value to another one, each name being one of a map's own
members. -/
inductive Leads : Value → List String → Value → Prop
  | here (v : Value) : Leads v [] v
  | on {members : Members Value} {name : String} {part v : Value} {path : List String} :
      (name, part) ∈ members → Leads part path v → Leads (.map members) (name :: path) v

/-- How a walk along a path ends, told by the chain of names that it can follow. -/
def Ends (v : Value) (path : List String) : Walk → Prop
  | .found w => v.Leads path w
  | .missing name => ∃ before after members, path = before ++ name :: after ∧
      v.Leads before (.map members) ∧ name ∉ Members.names members
  | .blocked name => ∃ before after w, path = before ++ name :: after ∧ v.Leads before w ∧
      ∀ members, w ≠ .map members

variable {v w : Value} {p q path : List String} {name : String}

theorem member?_of_mem {members : Members Value} (h : (Value.map members).IsTree) {part : Value}
    (hmem : (name, part) ∈ members) : (Value.map members).member? name = some part := by
  rw [member?, isMapping, if_pos rfl]
  exact (Members.get?_eq_some_iff h.nodup_names).mpr hmem

theorem member?_of_not_mem {members : Members Value} (h : name ∉ members.names) :
    (Value.map members).member? name = none := by
  rw [member?, isMapping, if_pos rfl]
  show members.get? name = none
  rw [← Option.not_isSome_iff_eq_none, ← Members.has_eq_isSome, Members.has_eq_true_iff]
  exact h

/-- What a chain leads to is plain data too. -/
theorem Leads.isTree (h : v.Leads p w) (hv : v.IsTree) : w.IsTree := by
  induction h with
  | here v => exact hv
  | on hmem hrest ih => exact ih (hv.of_mem hmem)

/-- A walk goes on from where a chain leads. -/
theorem Leads.walk_append (h : v.Leads p w) (hv : v.IsTree) (q : List String) :
    v.walk (p ++ q) = w.walk q := by
  induction h with
  | here v => rfl
  | on hmem hrest ih =>
    rw [List.cons_append, walk, member?_of_mem hv hmem]
    exact ih (hv.of_mem hmem)

/-- Every walk ends as the chain that it follows says. -/
theorem ends_walk (hv : v.IsTree) (path : List String) : v.Ends path (v.walk path) := by
  induction path generalizing v with
  | nil => exact Leads.here v
  | cons name rest ih =>
    by_cases hmap : v.isMapping = true
    · obtain ⟨members, rfl⟩ := hv.isMapping_iff.mp hmap
      by_cases hname : name ∈ Members.names members
      · obtain ⟨⟨_, part⟩, hmem, rfl⟩ := List.mem_map.mp hname
        have hfirst : (Value.map members).Leads [_] part := .on hmem (.here part)
        have hwalk := hfirst.walk_append hv rest
        rw [List.singleton_append] at hwalk
        rw [hwalk]
        -- the rest of the walk starts at the member, and its chain is longer by this name
        have hrest := ih (hv.of_mem hmem)
        cases hend : part.walk rest with
        | found w =>
          rw [hend] at hrest
          exact .on hmem hrest
        | missing other =>
          rw [hend] at hrest
          obtain ⟨before, after, inner, hpath, hleads, hnot⟩ := hrest
          exact ⟨_ :: before, after, inner, by rw [hpath]; rfl, .on hmem hleads, hnot⟩
        | blocked other =>
          rw [hend] at hrest
          obtain ⟨before, after, w, hpath, hleads, hnot⟩ := hrest
          exact ⟨_ :: before, after, w, by rw [hpath]; rfl, .on hmem hleads, hnot⟩
      · rw [walk, if_pos hmap, member?_of_not_mem hname]
        exact ⟨[], rest, members, rfl, .here _, hname⟩
    · rw [walk, if_neg hmap]
      refine ⟨[], rest, v, rfl, .here v, ?_⟩
      rintro members rfl
      exact hmap rfl

/-- A walk ends in the one way that a chain of names shows. -/
theorem walk_eq_iff_ends (hv : v.IsTree) {e : Walk} : v.walk path = e ↔ v.Ends path e := by
  constructor
  · rintro rfl
    exact ends_walk hv path
  · intro h
    cases e with
    | found w =>
      have hleads : v.Leads path w := h
      have hwalk := hleads.walk_append hv []
      rwa [List.append_nil] at hwalk
    | missing name =>
      obtain ⟨before, after, members, rfl, hleads, hnot⟩ := h
      rw [hleads.walk_append hv, walk, member?_of_not_mem hnot]
      rfl
    | blocked name =>
      obtain ⟨before, after, w, rfl, hleads, hnot⟩ := h
      have hmap : ¬ w.isMapping = true := by
        intro hmap
        obtain ⟨members, rfl⟩ := (hleads.isTree hv).isMapping_iff.mp hmap
        exact hnot members rfl
      rw [hleads.walk_append hv, walk, if_neg hmap]

/-- Every path ends in exactly one way. -/
theorem existsUnique_ends (hv : v.IsTree) (path : List String) : ∃! e, v.Ends path e := by
  refine ⟨v.walk path, ends_walk hv path, ?_⟩
  intro e he
  exact ((walk_eq_iff_ends hv).mpr he).symm

end LayeredSettings.Value
