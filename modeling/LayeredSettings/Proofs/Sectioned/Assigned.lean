import LayeredSettings.Proofs.Sectioned.Flattening
import LayeredSettings.Proofs.Sectioned.Nesting
import LayeredSettings.Proofs.Sectioned.Stretches
import LayeredSettings.Proofs.SettingsFile.Loading
import LayeredSettings.Proofs.Text.Case
import Mathlib.Logic.Function.Basic

/-!
# What a file of stretches is read as

All stretches of a section add to its options. Under each spelling of its name an option collects
the values that it is given under this very spelling; the document has the option under its lower
case name, with what was collected under the spelling that came up last.

* `give`, `get?_foldl_give` — the options of a section, one assignment after the other;
* `spellings`, `finalText?` — the spellings of an option, and the text that it has in the end;
* `HasSections`, `HasSections.foldlM_stretches` — the tree of stretches;
* `Document.IsOfStretches`, `IsStretchFile.exists_ofText` — the document of a file of stretches.
-/

namespace LayeredSettings.Sectioned

open Ini (Node Building)

/-! ## The options of a section -/

/-- The options of a section once one of them is given a value. One name is that of no option. -/
def give (members : Members Node) (a : Assignment) : Members Node :=
  if a.name = "__proto__" then members
  else members.set a.name (Node.joined (members.get? a.name) a.bracketed a.node)

/-- The values that assignments give under the very spelling of a name. -/
def givenTo (assignments : List Assignment) (name : String) : List Ini.Given :=
  (assignments.filter fun a => a.name = name).map (·.toGiven)

theorem givenTo_cons (a : Assignment) (rest : List Assignment) (name : String) :
    givenTo (a :: rest) name = if a.name = name then a.toGiven :: givenTo rest name
      else givenTo rest name := by
  unfold givenTo
  by_cases hname : a.name = name
  · simp [hname]
  · simp [hname]

theorem givenTo_ne_nil {assignments : List Assignment} {name : String}
    (h : ∃ a ∈ assignments, a.name = name) : givenTo assignments name ≠ [] := by
  obtain ⟨a, ha, hname⟩ := h
  apply List.ne_nil_of_mem (a := a.toGiven)
  exact List.mem_map_of_mem (List.mem_filter.mpr ⟨ha, by simp [hname]⟩)

/-- An option collects the values that it is given; those given to others do not matter to it. -/
theorem get?_foldl_give {name : String} (hname : name ≠ "__proto__")
    (assignments : List Assignment) (members : Members Node) :
    (assignments.foldl give members).get? name =
      Ini.collect (members.get? name) (givenTo assignments name) := by
  induction assignments generalizing members with
  | nil => rfl
  | cons a rest ih =>
    rw [List.foldl_cons, ih, givenTo_cons]
    by_cases ha : a.name = name
    · have hset : (give members a).get? name =
          some (Node.joined (members.get? name) a.bracketed a.node) := by
        rw [give, ha, if_neg hname, Members.get?_set, if_pos rfl]
      rw [if_pos ha, hset]
      rfl
    · have hother : (give members a).get? name = members.get? name := by
        unfold give
        split
        · rfl
        · rw [Members.get?_set, if_neg (Ne.symm ha)]
      rw [if_neg ha, hother]

theorem has_give (members : Members Node) (a : Assignment) (name : String) :
    (give members a).has name =
      (members.has name || decide (name ≠ "__proto__" ∧ a.name = name)) := by
  unfold give
  split
  · rename_i ha
    have hnot : ¬ (name ≠ "__proto__" ∧ a.name = name) := by
      rintro ⟨hname, rfl⟩
      exact hname ha
    rw [decide_eq_false hnot, Bool.or_false]
  · rename_i ha
    rw [Members.has_set]
    by_cases hname : name = a.name
    · simp [hname, ha]
    · simp [hname, Ne.symm hname]

theorem has_foldl_give (assignments : List Assignment) (members : Members Node) (name : String) :
    (assignments.foldl give members).has name =
      (members.has name || decide (name ≠ "__proto__" ∧ ∃ a ∈ assignments, a.name = name)) := by
  induction assignments generalizing members with
  | nil => simp
  | cons a rest ih =>
    rw [List.foldl_cons, ih, has_give, Bool.or_assoc]
    congr 1
    by_cases hname : name = "__proto__"
    · simp [hname]
    · simp [hname]

theorem nodup_names_foldl_give (assignments : List Assignment) {members : Members Node}
    (h : members.names.Nodup) : (assignments.foldl give members).names.Nodup := by
  induction assignments generalizing members with
  | nil => exact h
  | cons a rest ih =>
    apply ih
    unfold give
    split
    · exact h
    · exact Members.nodup_names_set h _ _

/-! ## Spellings -/

/-- Whether a name is a spelling of an option. -/
def Spells (option name : String) : Prop := name ≠ "__proto__" ∧ Text.lowerCase name = option

instance (option name : String) : Decidable (Spells option name) :=
  inferInstanceAs (Decidable (name ≠ "__proto__" ∧ Text.lowerCase name = option))

/-- The spellings of an option, each at the place where it comes up first. -/
def spellings (assignments : List Assignment) (option : String) : List String :=
  ((assignments.map (·.name)).filter fun name => Spells option name).eraseDups

/-- The text that an option has in the end: what was collected under its last spelling. -/
def finalText? (assignments : List Assignment) (option : String) : Option String :=
  (spellings assignments option).getLast?.map fun name =>
    Ini.collected (givenTo assignments name)

theorem mem_spellings {assignments : List Assignment} {option name : String} :
    name ∈ spellings assignments option ↔
      Spells option name ∧ ∃ a ∈ assignments, a.name = name := by
  simp [spellings, List.mem_eraseDups, and_comm]

theorem spellings_concat (assignments : List Assignment) (a : Assignment) (option : String) :
    spellings (assignments ++ [a]) option =
      if Spells option a.name ∧ ∀ earlier ∈ assignments, earlier.name ≠ a.name then
        spellings assignments option ++ [a.name]
      else spellings assignments option := by
  have hnames : (assignments ++ [a]).map (·.name) = assignments.map (·.name) ++ [a.name] := by simp
  rw [spellings, hnames, List.filter_append, List.eraseDups_append]
  by_cases hspells : Spells option a.name
  · have hlast : [a.name].filter (fun name => Spells option name) = [a.name] := by simp [hspells]
    by_cases hnew : ∀ earlier ∈ assignments, earlier.name ≠ a.name
    · have hfresh : a.name ∉ (assignments.map (·.name)).filter fun name => Spells option name := by
        intro hmem
        obtain ⟨earlier, hearlier, hname⟩ := List.mem_map.mp (List.mem_filter.mp hmem).1
        exact hnew earlier hearlier hname
      rw [if_pos ⟨hspells, hnew⟩, hlast, List.removeAll, List.filter_singleton]
      simp [hfresh, spellings, List.eraseDups_cons]
    · have hseen : a.name ∈ (assignments.map (·.name)).filter fun name => Spells option name := by
        push Not at hnew
        obtain ⟨earlier, hearlier, hname⟩ := hnew
        exact List.mem_filter.mpr ⟨List.mem_map.mpr ⟨earlier, hearlier, hname⟩, by simp [hspells]⟩
      rw [if_neg fun h => hnew h.2, hlast, List.removeAll, List.filter_singleton]
      simp [hseen, spellings]
  · have hlast : [a.name].filter (fun name => Spells option name) = [] := by simp [hspells]
    rw [if_neg fun h => hspells h.1, hlast]
    simp [spellings, List.removeAll]

theorem isDigit_of_arrayIndex? {name : String} {i : Nat} (h : Members.arrayIndex? name = some i) :
    ∀ c ∈ name.toList, Text.isDigit c = true := by
  simp only [Members.arrayIndex?] at h
  split at h
  · cases h
  · rename_i hnot
    intro c hc
    have hall : name.toList.all (fun c => '0' ≤ c && c ≤ '9') = true := by
      by_contra hother
      apply hnot
      simp only [Bool.not_eq_true] at hother
      simp [hother]
    exact List.all_eq_true.mp hall c hc

/-- The spellings of an option that is no array index are listed as they come up. -/
theorem filter_names_foldl_give {option : String} (hindex : Members.arrayIndex? option = none)
    (assignments : List Assignment) :
    ((assignments.foldl give []).names.filter fun name => Text.lowerCase name = option) =
      spellings assignments option := by
  have hclass : ∀ name, decide (Text.lowerCase name = option) = true →
      Members.arrayIndex? name = none := by
    intro name hname
    cases hspelled : Members.arrayIndex? name with
    | none => rfl
    | some i =>
      have hlower := Text.lowerCase_of_isDigit (isDigit_of_arrayIndex? hspelled)
      rw [decide_eq_true_iff] at hname
      rw [← hname, hlower, hspelled] at hindex
      cases hindex
  -- from the back, since it is the last assignment that may bring a new name
  induction assignments using List.reverseRecOn with
  | nil => rfl
  | append_singleton assignments a ih =>
    rw [List.foldl_append, spellings_concat, List.foldl_cons, List.foldl_nil, give]
    by_cases hproto : a.name = "__proto__"
    · rw [if_pos hproto, if_neg fun h => h.1.1 hproto]
      exact ih
    · have hhas : (assignments.foldl give []).has a.name = true ↔
          ∃ earlier ∈ assignments, earlier.name = a.name := by
        rw [has_foldl_give]
        simp [Members.has, hproto]
      rw [if_neg hproto]
      by_cases hseen : ∃ earlier ∈ assignments, earlier.name = a.name
      · obtain ⟨earlier, hearlier, hname⟩ := hseen
        rw [Members.set_of_has (hhas.mpr ⟨earlier, hearlier, hname⟩), Members.names_replace,
          if_neg fun h => h.2 earlier hearlier hname]
        exact ih
      · have hnew : a.name ∉ Members.names (assignments.foldl give []) := by
          rwa [← Members.has_eq_true_iff, hhas]
        push Not at hseen
        rw [Members.filter_names_set hclass hnew, List.filter_append, ih, List.filter_singleton]
        by_cases hlower : Text.lowerCase a.name = option
        · rw [if_pos ⟨⟨hproto, hlower⟩, hseen⟩]
          simp [hlower]
        · rw [if_neg fun h => hlower h.1.2]
          simp [hlower]

theorem getLast?_of_forall_eq {l : List String} {x : String} (h : ∀ y ∈ l, y = x) :
    l.getLast? = if x ∈ l then some x else none := by
  cases hlast : l.getLast? with
  | none =>
    rw [List.getLast?_eq_none_iff.mp hlast, if_neg List.not_mem_nil]
  | some y =>
    have hmem := List.mem_of_getLast? hlast
    obtain rfl := h y hmem
    rw [if_pos hmem]

/-- Of the members of a section that are called like an option, the last one listed has the last of
its spellings. -/
theorem getLast?_filter_names (assignments : List Assignment) (option : String) :
    ((assignments.foldl give []).names.filter fun name => Text.lowerCase name = option).getLast? =
      (spellings assignments option).getLast? := by
  cases hindex : Members.arrayIndex? option with
  | none => rw [filter_names_foldl_give hindex]
  | some i =>
    -- an array index is the only spelling of itself
    have honly {name : String} (hname : Text.lowerCase name = option) : name = option := by
      have hdigits := isDigit_of_arrayIndex? hindex
      rw [← hname] at hdigits
      rw [← hname, Text.lowerCase_eq_of_isDigit hdigits]
    have hnames : ∀ name ∈ (assignments.foldl give []).names.filter
        fun name => Text.lowerCase name = option, name = option := by
      intro name hname
      exact honly (by simpa using (List.mem_filter.mp hname).2)
    have hspellings : ∀ name ∈ spellings assignments option, name = option :=
      fun name hname => honly (mem_spellings.mp hname).1.2
    rw [getLast?_of_forall_eq hnames, getLast?_of_forall_eq hspellings]
    have hmem : option ∈ ((assignments.foldl give []).names.filter
        fun name => Text.lowerCase name = option) ↔ option ∈ spellings assignments option := by
      rw [mem_spellings, List.mem_filter, ← Members.has_eq_true_iff, has_foldl_give]
      simp only [Members.has, Spells, List.any_nil, Bool.false_or, decide_eq_true_eq]
      tauto
    simp only [hmem]

/-- An option with one spelling has the text that was collected under it. -/
theorem finalText?_of_forall {assignments : List Assignment} {option name : String}
    (hspells : Spells option name) (hassigned : ∃ a ∈ assignments, a.name = name)
    (honly : ∀ a ∈ assignments, Spells option a.name → a.name = name) :
    finalText? assignments option = some (Ini.collected (givenTo assignments name)) := by
  have hall : ∀ other ∈ spellings assignments option, other = name := by
    intro other hother
    obtain ⟨hother, a, ha, rfl⟩ := mem_spellings.mp hother
    exact honly a ha hother
  rw [finalText?, getLast?_of_forall_eq hall, if_pos (mem_spellings.mpr ⟨hspells, hassigned⟩)]
  rfl

/-! ## The texts of options -/

/-- Every member of a section is an option, with the text that was collected under its name. -/
theorem of_mem_foldl_give {assignments : List Assignment}
    (hshort : assignments.length ≤ Node.longestJoined) {entry : String × Node}
    (h : entry ∈ assignments.foldl give []) :
    (∀ ordinary members, entry.2 ≠ .object ordinary members) ∧
      entry.2.optionText = .ok (Ini.collected (givenTo assignments entry.1)) := by
  have hempty : (Members.names ([] : Members Node)).Nodup := List.nodup_nil
  have hnodup := nodup_names_foldl_give assignments hempty
  have hget := (Members.get?_eq_some_iff hnodup).mpr h
  have hhas : Members.has (assignments.foldl give []) entry.1 = true :=
    Members.has_eq_true_iff.mpr (List.mem_map_of_mem h)
  rw [has_foldl_give] at hhas
  obtain ⟨hname, hassigned⟩ : entry.1 ≠ "__proto__" ∧ ∃ a ∈ assignments, a.name = entry.1 := by
    simpa [Members.has] using hhas
  have hlength : (givenTo assignments entry.1).length ≤ Node.longestJoined := by
    rw [givenTo, List.length_map]
    exact Nat.le_trans (List.length_filter_le _ _) hshort
  obtain ⟨node, hcollect, hleaf, htext⟩ := Ini.exists_collect (givenTo_ne_nil hassigned) hlength
  rw [get?_foldl_give hname] at hget
  have hnode : Ini.collect none (givenTo assignments entry.1) = some entry.2 := hget
  rw [hcollect, Option.some.injEq] at hnode
  rw [← hnode]
  exact ⟨hleaf, htext⟩

/-- The options of a section have their final texts. -/
theorem get?_ownOptions_foldl_give {assignments : List Assignment}
    (hshort : assignments.length ≤ Node.longestJoined) (option : String) :
    (ownOptions (assignments.foldl give [])).get? option = finalText? assignments option := by
  have hown : (assignments.foldl give []).filterMap ownOption? =
      (Members.names (assignments.foldl give [])).map fun name =>
        (Text.lowerCase name, Ini.collected (givenTo assignments name)) := by
    rw [Members.names, List.map_map, ← List.filterMap_eq_map]
    apply List.filterMap_congr
    rintro ⟨name, node⟩ hentry
    obtain ⟨hleaf, htext⟩ := of_mem_foldl_give hshort hentry
    exact ownOption?_eq hleaf htext
  have hempty : Members.get? ([] : Options) option = none := rfl
  rw [ownOptions, Members.ofList_eq_setAll, Members.get?_setAll, hempty, Option.or_none, hown,
    finalText?, ← getLast?_filter_names, List.filter_map, List.getLast?_map, Option.map_map]
  rfl

/-! ## The tree of stretches -/

/-- A tree that has nothing but sections at its top, with their members. -/
structure HasSections (top : Members Node) (found : String → Option (Members Node)) : Prop where
  nodup : top.names.Nodup
  get?_eq : ∀ name, top.get? name = (found name).map (Node.object false)

/-- The sections once one of them has these members. -/
theorem HasSections.set {top : Members Node} {found : String → Option (Members Node)}
    (h : HasSections top found) (name : String) (members : Members Node) :
    HasSections (top.set name (.object false members))
      (Function.update found name (some members)) := by
  refine ⟨Members.nodup_names_set h.nodup _ _, fun other => ?_⟩
  rw [Members.get?_set]
  by_cases hother : other = name
  · rw [if_pos hother, hother, Function.update_self]
    rfl
  · rw [if_neg hother, Function.update_of_ne hother]
    exact h.get?_eq other

theorem HasSections.of_eq {top : Members Node} {found : String → Option (Members Node)}
    (h : HasSections top found) {name : String} {members : Members Node}
    (hfound : found name = some members) :
    HasSections top (Function.update found name (some members)) := by
  rwa [Function.update_eq_self_iff.mpr hfound.symm]

section

variable {b : Building} {found : String → Option (Members Node)}

/-- A header opens its section, anew if there is none of its name yet. -/
theorem HasSections.add_header (h : HasSections b.top found) {name : String}
    (hname : name ≠ "__proto__") :
    ∃ top, b.add (Clause.header name).line = .ok { top, target := .inSection name } ∧
      HasSections top (Function.update found name (some ((found name).getD []))) := by
  have hget := h.get?_eq name
  cases hfound : found name with
  | none =>
    rw [hfound] at hget
    exact ⟨_, Sectioned.add_header hname hget, h.set name []⟩
  | some members =>
    rw [hfound] at hget
    exact ⟨b.top, Sectioned.add_header_again hname hget, h.of_eq hfound⟩

/-- An option is given its value in the section that was opened last. -/
theorem HasSections.add_assignment (h : HasSections b.top found) {name : String}
    {members : Members Node} (hfound : found name = some members)
    (htarget : b.target = .inSection name) {a : Assignment} {line : List Char} (ha : a.IsOn line) :
    ∃ top, b.add (Clause.assignment a).line = .ok { top, target := .inSection name } ∧
      HasSections top (Function.update found name (some (give members a))) := by
  have hsame : b = { top := b.top, target := .inSection name } := by rw [← htarget]
  by_cases hproto : a.name = "__proto__"
  · refine ⟨b.top, ?_, ?_⟩
    · have hreserved : Ini.OptionName.isReserved
          { name := .text a.name, bracketed := a.bracketed } = true := by
        rw [Ini.OptionName.isReserved_iff, hproto]
      show b.assign (.str a.key) _ = _
      rw [Building.assign_eq, ha.optionName_eq]
      simp only [Except.bind, hreserved, if_true]
      rw [← hsame]
    · rw [give, if_pos hproto]
      exact h.of_eq hfound
  · refine ⟨b.top.set name (.object false (give members a)), ?_, h.set name _⟩
    have hget := h.get?_eq name
    rw [hfound] at hget
    have hgive := Building.add_option ha.optionName_eq rfl hproto b (Ini.constant (.str a.value))
    rw [Building.give, htarget] at hgive
    simp only [hget, Option.map_some, Node.assign_section] at hgive
    rw [Clause.line, hgive, give, if_neg hproto]
    rw [hsame]
    rfl

/-- So are some options one after the other. -/
theorem HasSections.foldlM_assignments {assignments : List Assignment}
    (hon : ∀ a ∈ assignments, ∃ line, a.IsOn line) (h : HasSections b.top found) {name : String}
    {members : Members Node} (hfound : found name = some members)
    (htarget : b.target = .inSection name) :
    ∃ top, ((assignments.map Clause.assignment).map Clause.line).foldlM Building.add b =
        .ok { top, target := .inSection name } ∧
      HasSections top (Function.update found name (some (assignments.foldl give members))) := by
  induction assignments generalizing b found members with
  | nil =>
    refine ⟨b.top, ?_, h.of_eq hfound⟩
    rw [← htarget]
    rfl
  | cons a rest ih =>
    obtain ⟨line, hline⟩ := hon a List.mem_cons_self
    obtain ⟨top, hadd, htop⟩ := h.add_assignment hfound htarget hline
    have hfoundTop : Function.update found name (some (give members a)) name =
        some (give members a) := Function.update_self name _ found
    obtain ⟨final, hrest, hfinal⟩ := ih (b := { top, target := .inSection name })
      (fun other hother => hon other (List.mem_cons_of_mem a hother)) htop hfoundTop rfl
    refine ⟨final, ?_, ?_⟩
    · rw [List.map_cons, List.map_cons, List.foldlM_cons, hadd]
      exact hrest
    · rwa [Function.update_idem] at hfinal

/-- The sections once a stretch has added to one of them. -/
def addStretch (found : String → Option (Members Node)) (s : Stretch) :
    String → Option (Members Node) :=
  Function.update found s.name (some (s.assignments.foldl give ((found s.name).getD [])))

theorem HasSections.foldlM_stretch (h : HasSections b.top found) {s : Stretch}
    (hname : s.name ≠ "__proto__") (hon : ∀ a ∈ s.assignments, ∃ line, a.IsOn line) :
    ∃ top, (s.clauses.map Clause.line).foldlM Building.add b =
        .ok { top, target := .inSection s.name } ∧ HasSections top (addStretch found s) := by
  obtain ⟨top, hadd, htop⟩ := h.add_header hname
  have hfound : Function.update found s.name (some ((found s.name).getD [])) s.name =
      some ((found s.name).getD []) := Function.update_self s.name _ found
  obtain ⟨final, hrest, hfinal⟩ :=
    htop.foldlM_assignments (b := { top, target := .inSection s.name }) hon hfound rfl
  refine ⟨final, ?_, ?_⟩
  · rw [Stretch.clauses, List.map_cons, List.foldlM_cons, hadd]
    exact hrest
  · rwa [Function.update_idem] at hfinal

/-- Stretches add to their sections one after the other. -/
theorem HasSections.foldlM_stretches {stretches : List Stretch}
    (hname : ∀ s ∈ stretches, s.name ≠ "__proto__")
    (hon : ∀ s ∈ stretches, ∀ a ∈ s.assignments, ∃ line, a.IsOn line)
    (h : HasSections b.top found) :
    ∃ final, ((stretches.flatMap Stretch.clauses).map Clause.line).foldlM Building.add b =
        .ok final ∧ HasSections final.top (stretches.foldl addStretch found) := by
  induction stretches generalizing b found with
  | nil => exact ⟨b, rfl, h⟩
  | cons s rest ih =>
    obtain ⟨top, hadd, htop⟩ := h.foldlM_stretch (hname s List.mem_cons_self)
      (hon s List.mem_cons_self)
    obtain ⟨final, hrest, hfinal⟩ := ih (b := { top, target := .inSection s.name })
      (fun other hother => hname other (List.mem_cons_of_mem s hother))
      (fun other hother => hon other (List.mem_cons_of_mem s hother)) htop
    refine ⟨final, ?_, hfinal⟩
    rw [List.flatMap_cons, List.map_append, List.foldlM_append, hadd]
    exact hrest

end

/-- A section has all that the stretches of its name give it. -/
theorem foldl_addStretch (stretches : List Stretch) (found : String → Option (Members Node))
    (name : String) :
    stretches.foldl addStretch found name =
      if ∃ s ∈ stretches, s.name = name then
        some ((assignedTo stretches name).foldl give ((found name).getD []))
      else found name := by
  induction stretches generalizing found with
  | nil => simp
  | cons s rest ih =>
    rw [List.foldl_cons, ih, assignedTo_cons]
    by_cases hname : s.name = name
    · have hadd : addStretch found s name =
          some (s.assignments.foldl give ((found name).getD [])) := by
        rw [addStretch, hname, Function.update_self]
      have hfirst : ∃ other ∈ s :: rest, other.name = name := ⟨s, List.mem_cons_self, hname⟩
      rw [if_pos hname, hadd, if_pos hfirst, List.foldl_append]
      by_cases hlater : ∃ other ∈ rest, other.name = name
      · rw [if_pos hlater]
        rfl
      · rw [if_neg hlater, assignedTo_eq_nil hlater]
        rfl
    · have hadd : addStretch found s name = found name := by
        rw [addStretch, Function.update_of_ne (Ne.symm hname)]
      rw [if_neg hname, hadd]
      simp [hname]

/-- Where no name has a dot, no section moves. -/
theorem nest_of_undotted {top : Members Node} (h : ∀ name ∈ top.names, '.' ∉ name.toList) :
    Ini.nest top = .ok top := by
  have hstays (m : Ini.Moving) {names : List String} (hnames : ∀ name ∈ names, '.' ∉ name.toList) :
      names.foldlM Ini.Moving.move m = .ok m := by
    induction names with
    | nil => rfl
    | cons name rest ih =>
      have haddress := Ini.Address.of?_eq_none (hnames name List.mem_cons_self)
      rw [List.foldlM_cons, move_of_of?_eq_none haddress]
      exact ih fun other hother => hnames other (List.mem_cons_of_mem name hother)
  rw [Ini.nest, hstays _ h]
  simp [bind, Except.bind, pure, Except.pure]

/-! ## The document of a file -/

/-- Members that are options, all of them with a text. -/
def AreOptions (members : Members Node) : Prop :=
  ∀ entry ∈ members, (∀ ordinary inner, entry.2 ≠ .object ordinary inner) ∧
    ∃ value, entry.2.optionText = .ok value

theorem AreOptions.addSection_eq {members : Members Node} (h : AreOptions members)
    (sections : Sections) (name : String) :
    addSection sections name members = .ok (sections.set name (ownOptions members)) := by
  have hobject : ∀ entry ∈ members, entry.2.isObject = false :=
    fun entry hentry => Node.isObject_eq_false_iff.mpr (h entry hentry).1
  have hlegible : ∀ entry ∈ members, entry.2.Legible := by
    intro entry hentry
    obtain ⟨value, hvalue⟩ := (h entry hentry).2
    exact .option (hobject entry hentry) hvalue
  have hkept : isKept members = true := (isKept_iff hlegible).mpr (.inr hobject)
  have hjoin : Text.joinWith '.' [name] = name := by simp [Text.joinWith]
  rw [Sectioned.addSection_eq hlegible, sectionsBelow_eq_nil hobject, List.nil_append,
    keptSections_cons, if_pos hkept, hjoin]
  rfl

/-- Sections at the top of a tree are those of the document. -/
theorem exists_sectionsOf (location : String) (sections : Sections)
    {found : String → Option (Members Node)} {top : Members Node}
    (h : ∀ entry ∈ top, ∃ members, entry.2 = .object false members ∧
      found entry.1 = some members ∧ AreOptions members) :
    ∃ result, Document.sectionsOf location sections top = .ok result ∧ ∀ name,
      result.get? name =
        if name ∈ top.names then (found name).map ownOptions else sections.get? name := by
  induction top generalizing sections with
  | nil => exact ⟨sections, rfl, fun name => (if_neg List.not_mem_nil).symm⟩
  | cons entry rest ih =>
    obtain ⟨first, node⟩ := entry
    obtain ⟨members, hnode, hfound, hoptions⟩ := h _ List.mem_cons_self
    have hnode : node = .object false members := hnode
    have hfound : found first = some members := hfound
    obtain ⟨result, hrest, hget⟩ := ih (sections.set first (ownOptions members))
      fun other hother => h other (List.mem_cons_of_mem _ hother)
    refine ⟨result, ?_, fun name => ?_⟩
    · rw [hnode, Document.sectionsOf, hoptions.addSection_eq]
      exact hrest
    · have hnames : name ∈ Members.names ((first, node) :: rest) ↔
          name = first ∨ name ∈ Members.names rest := List.mem_cons
      rw [hget, Members.get?_set]
      by_cases hname : name ∈ Members.names rest
      · rw [if_pos hname, if_pos (hnames.mpr (.inr hname))]
      · by_cases hfirst : name = first
        · rw [if_neg hname, if_pos hfirst, if_pos (hnames.mpr (.inl hfirst)), hfirst, hfound]
          rfl
        · rw [if_neg hname, if_neg hfirst, if_neg fun h => (hnames.mp h).elim hfirst hname]

/-- Whether a document has what stretches give. -/
structure Document.IsOfStretches (d : Document) (stretches : List Stretch) : Prop where
  section_iff : ∀ name, (d.sections.get? name).isSome = true ↔
    name ≠ defaultSection ∧ ∃ s ∈ stretches, s.name = name
  option_eq : ∀ name options, d.sections.get? name = some options → ∀ option,
    options.get? option = finalText? (assignedTo stretches name) option
  default_eq : ∀ option,
    d.defaults.get? option = finalText? (assignedTo stretches defaultSection) option

theorem HasSections.mem_names_iff {top : Members Node} {found : String → Option (Members Node)}
    (h : HasSections top found) (name : String) :
    name ∈ top.names ↔ (found name).isSome = true := by
  rw [← Members.has_eq_true_iff, Members.has_eq_isSome, h.get?_eq, Option.isSome_map]

/-- A tree of sections that have what stretches give has the sections of the stretches: each of
their names, with all options that its stretches give. -/
theorem HasSections.exists_sections (location : String) {stretches : List Stretch}
    (hshort : ∀ name, (assignedTo stretches name).length ≤ Node.longestJoined)
    {top : Members Node} (h : HasSections top (stretches.foldl addStretch fun _ => none)) :
    ∃ sections, Document.sectionsOf location [] top = .ok sections ∧ ∀ name,
      sections.get? name = if ∃ s ∈ stretches, s.name = name then
        some (ownOptions ((assignedTo stretches name).foldl give [])) else none := by
  have hfound (name : String) : stretches.foldl addStretch (fun _ => none) name =
      if ∃ s ∈ stretches, s.name = name then some ((assignedTo stretches name).foldl give [])
      else none := foldl_addStretch stretches (fun _ => none) name
  have htop : ∀ entry ∈ top, ∃ members, entry.2 = .object false members ∧
      stretches.foldl addStretch (fun _ => none) entry.1 = some members ∧ AreOptions members := by
    intro entry hentry
    have hget := h.get?_eq entry.1
    rw [(Members.get?_eq_some_iff h.nodup).mpr hentry] at hget
    obtain ⟨members, hmembers, hobject⟩ := Option.map_eq_some_iff.mp hget.symm
    refine ⟨members, hobject.symm, hmembers, fun option hoption => ?_⟩
    rw [hfound] at hmembers
    split at hmembers
    · obtain rfl := Option.some.inj hmembers
      obtain ⟨hleaf, htext⟩ := of_mem_foldl_give (hshort entry.1) hoption
      exact ⟨hleaf, _, htext⟩
    · cases hmembers
  obtain ⟨sections, hsections, hget⟩ := exists_sectionsOf location [] htop
  refine ⟨sections, hsections, fun name => ?_⟩
  rw [hget name]
  by_cases hname : ∃ s ∈ stretches, s.name = name
  · have hmem : name ∈ top.names := (h.mem_names_iff name).mpr (by simp [hfound, hname])
    rw [if_pos hmem, if_pos hname, hfound, if_pos hname]
    rfl
  · have hnotMem : name ∉ top.names := by
      rw [h.mem_names_iff, hfound, if_neg hname]
      exact Bool.false_ne_true
    rw [if_neg hnotMem, if_neg hname]
    rfl

/-- The sections of stretches make the document of the stretches. -/
theorem exists_isOfStretches (location : String) {stretches : List Stretch}
    (hplain : ∀ s ∈ stretches, s.Plain)
    (hshort : ∀ name, (assignedTo stretches name).length ≤ Node.longestJoined) {sections : Sections}
    (h : ∀ name, sections.get? name = if ∃ s ∈ stretches, s.name = name then
      some (ownOptions ((assignedTo stretches name).foldl give [])) else none) :
    ∃ d, Document.ofSections location sections = .ok d ∧ d.IsOfStretches stretches := by
  have hreserved : sections.has reservedSection = false := by
    rw [Members.has_eq_isSome, h, if_neg]
    · rfl
    · rintro ⟨s, hs, hname⟩
      exact (hplain s hs).unreserved hname
  refine ⟨_, by rw [Document.ofSections, if_neg (by simp [hreserved])], ?_, ?_, ?_⟩
  · intro name
    show (Members.get? (sections.erase defaultSection) name).isSome = true ↔ _
    rw [Members.get?_erase]
    by_cases hname : name = defaultSection
    · simp [hname]
    · rw [if_neg hname, h]
      by_cases hstretch : ∃ s ∈ stretches, s.name = name
      · simp [hname, hstretch]
      · simp [hstretch]
  · intro name options hoptions option
    have hoptions : Members.get? (sections.erase defaultSection) name = some options := hoptions
    rw [Members.get?_erase] at hoptions
    split at hoptions
    · cases hoptions
    · rw [h] at hoptions
      split at hoptions
      · obtain rfl := Option.some.inj hoptions
        exact get?_ownOptions_foldl_give (hshort name) option
      · cases hoptions
  · intro option
    show Members.get? ((sections.get? defaultSection).getD []) option = _
    rw [h]
    by_cases hstretch : ∃ s ∈ stretches, s.name = defaultSection
    · rw [if_pos hstretch, Option.getD_some]
      exact get?_ownOptions_foldl_give (hshort defaultSection) option
    · rw [if_neg hstretch, assignedTo_eq_nil hstretch]
      rfl

/-- A file of stretches is read as what they give. The longest list that can be joined is longer
than any text of the platform, so no list of the file is too long. -/
theorem IsStretchFile.exists_ofText {stretches : List Stretch} {text : List Char}
    (h : IsStretchFile stretches text) (hshort : text.length < Node.longestJoined)
    (location : String) :
    ∃ d, Document.ofText location text = .ok d ∧ d.IsOfStretches stretches := by
  have hempty : HasSections [] fun _ => none := ⟨List.nodup_nil, fun _ => rfl⟩
  obtain ⟨final, hfold, hfinal⟩ := HasSections.foldlM_stretches
    (b := { top := [], target := .top }) (fun s hs => (h.plain s hs).name_ne_proto)
    (fun s hs a ha => h.exists_isOn hs ha) hempty
  have hbuild : Ini.build (said text) = .ok final.top := by
    rw [Ini.build, said_of_isStretchFile h, hfold]
    rfl
  have hundotted : ∀ name ∈ final.top.names, '.' ∉ name.toList := by
    intro name hname
    have hsome := (hfinal.mem_names_iff name).mp hname
    rw [foldl_addStretch] at hsome
    split at hsome
    · rename_i hstretch
      obtain ⟨s, hs, rfl⟩ := hstretch
      exact (h.plain s hs).undotted
    · cases hsome
  have hlength (name : String) : (assignedTo stretches name).length ≤ Node.longestJoined := by
    have hle := h.length_assignedTo_le name
    omega
  obtain ⟨sections, hsections, hget⟩ := hfinal.exists_sections location hlength
  obtain ⟨d, hd, hdocument⟩ := exists_isOfStretches location h.plain hlength hget
  refine ⟨d, ?_, hdocument⟩
  rw [Document.ofText_eq, Document.ofSaid, hbuild, Except.bind, nest_of_undotted hundotted]
  simp only []
  rw [hsections]
  exact hd

end LayeredSettings.Sectioned
