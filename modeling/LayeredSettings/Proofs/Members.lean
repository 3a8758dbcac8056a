import LayeredSettings.Members
import Mathlib.Data.List.Induction
import Mathlib.Data.List.Nodup

/-!
# The order and the names of members

Facts about setting one name after the other, beyond what is found under a name.

* `set_set` — of two parts set under one name only the second counts;
* `nodup_names_set`, `mem_set` — names stay distinct, and nothing but the new part comes in;
* `setAll`, `get?_setAll_of_forall`, `get?_setAll_of_not_mem`, `get?_setAll` — setting one name
  after the other, and what is found in the end;
* `filter_names_ofList` — names that are no array indices keep the order in which they came.
-/

namespace LayeredSettings.Members

variable {α : Type}

theorem has_set (members : Members α) (name other : String) (part : α) :
    has (set members name part) other = (other == name || has members other) := by
  rw [has_eq_isSome, has_eq_isSome, get?_set]
  by_cases h : other = name
  · simp [h]
  · simp [h]

theorem set_of_has {members : Members α} {name : String} (h : has members name = true) (part : α) :
    set members name part = replace members name part := by
  rw [set, if_pos h]

/-! ## Setting a name twice -/

theorem replace_replace (members : Members α) (name : String) (part other : α) :
    replace (replace members name part) name other = replace members name other := by
  simp only [replace, List.map_map]
  apply List.map_congr_left
  intro entry _
  by_cases h : entry.1 = name
  · simp [h]
  · simp [h]

theorem replace_of_not_has {members : Members α} {name : String} (h : has members name = false)
    (part : α) : replace members name part = members := by
  induction members with
  | nil => rfl
  | cons entry rest ih =>
    simp only [has, List.any_cons, Bool.or_eq_false_iff] at h
    have hcons : replace (entry :: rest) name part =
        (if entry.1 == name then (name, part) else entry) :: replace rest name part := rfl
    rw [hcons, ih h.2, h.1]
    rfl

theorem replace_insertIndex {members : Members α} {name : String}
    (h : has members name = false) (index : Nat) (part other : α) :
    replace (insertIndex members index name part) name other =
      insertIndex members index name other := by
  induction members with
  | nil => simp [insertIndex, replace]
  | cons entry rest ih =>
    simp only [has, List.any_cons, Bool.or_eq_false_iff] at h
    have hrest : replace (entry :: rest) name other = entry :: rest :=
      replace_of_not_has (by simp only [has, List.any_cons, h.1, h.2, Bool.or_self]) other
    have hnew (tail : Members α) : replace ((name, part) :: tail) name other =
        (name, other) :: replace tail name other := by
      simp [replace]
    have hold (tail : Members α) : replace (entry :: tail) name other =
        entry :: replace tail name other := by
      have hne : entry.1 ≠ name := by simpa using h.1
      simp [replace, hne]
    unfold insertIndex
    split
    · split
      · rw [hold, ih h.2]
      · rw [hnew, hrest]
    · rw [hnew, hrest]

/-- Of two parts set under one name only the second counts. -/
theorem set_set (members : Members α) (name : String) (part other : α) :
    set (set members name part) name other = set members name other := by
  -- the second time the name is there and keeps the place that it was given the first time
  have hhas : has (set members name part) name = true := by simp [has_set]
  rw [set_of_has hhas]
  cases h : has members name with
  | true => rw [set_of_has h, set_of_has h, replace_replace]
  | false =>
    unfold set
    rw [if_neg (by simp [h]), if_neg (by simp [h])]
    split
    · exact replace_insertIndex h _ part other
    · have hold := replace_of_not_has h other
      rw [replace] at hold ⊢
      rw [List.map_append, hold]
      simp

/-! ## Names -/

/-- An index beyond those of all members comes last. -/
theorem insertIndex_of_forall_lt {members : Members α} {index : Nat}
    (h : ∀ entry ∈ members, ∃ i, arrayIndex? entry.1 = some i ∧ i < index) (name : String)
    (part : α) : insertIndex members index name part = members ++ [(name, part)] := by
  induction members with
  | nil => rfl
  | cons entry rest ih =>
    obtain ⟨i, hi, hlt⟩ := h entry List.mem_cons_self
    simp only [insertIndex, hi, if_pos hlt, List.cons_append]
    rw [ih fun other hother => h other (List.mem_cons_of_mem entry hother)]

theorem mem_insertIndex {members : Members α} {index : Nat} {name : String} {part : α}
    {entry : String × α} :
    entry ∈ insertIndex members index name part ↔ entry = (name, part) ∨ entry ∈ members := by
  induction members with
  | nil => simp [insertIndex]
  | cons first rest ih =>
    unfold insertIndex
    split
    · split
      · rw [List.mem_cons, ih, List.mem_cons]
        tauto
      · simp
    · simp

/-- Nothing but the new part comes in. -/
theorem mem_set {members : Members α} {name : String} {part : α} {entry : String × α}
    (h : entry ∈ set members name part) : entry = (name, part) ∨ entry ∈ members := by
  unfold set at h
  split at h
  · obtain ⟨old, hold, heq⟩ := List.mem_map.mp h
    split at heq
    · exact .inl heq.symm
    · exact .inr (heq ▸ hold)
  · split at h
    · exact mem_insertIndex.mp h
    · rcases List.mem_append.mp h with h | h
      · exact .inr h
      · exact .inl (List.mem_singleton.mp h)

theorem has_eq_true_iff {members : Members α} {name : String} :
    has members name = true ↔ name ∈ names members := by
  simp [has, names]

theorem nodup_names_insertIndex {members : Members α} {name : String}
    (hnodup : (names members).Nodup) (hnew : name ∉ names members) (index : Nat) (part : α) :
    (names (insertIndex members index name part)).Nodup := by
  induction members with
  | nil => simp [insertIndex, names]
  | cons first rest ih =>
    have hcons : names (first :: rest) = first.1 :: names rest := rfl
    have hadd : (names ((name, part) :: first :: rest)).Nodup :=
      List.nodup_cons.mpr ⟨hnew, hnodup⟩
    unfold insertIndex
    split
    · split
      · rw [hcons, List.nodup_cons] at hnodup
        rw [hcons, List.mem_cons, not_or] at hnew
        refine List.nodup_cons.mpr ⟨?_, ih hnodup.2 hnew.2⟩
        intro hmem
        obtain ⟨entry, hentry, heq⟩ := List.mem_map.mp hmem
        rcases mem_insertIndex.mp hentry with rfl | hold
        · exact hnew.1 heq
        · have heq : entry.1 = first.1 := heq
          exact hnodup.1 (heq ▸ List.mem_map_of_mem hold)
      · exact hadd
    · exact hadd

/-- Distinct names stay distinct. -/
theorem nodup_names_set {members : Members α} (h : (names members).Nodup) (name : String)
    (part : α) : (names (set members name part)).Nodup := by
  unfold set
  split
  · rwa [names_replace]
  · rename_i hnew
    have hnew : name ∉ names members := fun hmem => hnew (has_eq_true_iff.mpr hmem)
    split
    · exact nodup_names_insertIndex h hnew _ part
    · have happ : names (members ++ [(name, part)]) = names members ++ [name] := by simp [names]
      rw [happ]
      refine List.Nodup.append h (List.nodup_singleton name) ?_
      intro other hmem hname
      rw [List.mem_singleton.mp hname] at hmem
      exact hnew hmem

theorem mem_of_get? {members : Members α} {name : String} {part : α}
    (h : get? members name = some part) : (name, part) ∈ members := by
  obtain ⟨first, last, rfl, -⟩ := List.lookup_eq_some_iff.mp h
  simp

/-- With distinct names, to be found under a name is to be listed under it. -/
theorem get?_eq_some_iff {members : Members α} (h : (names members).Nodup) {name : String}
    {part : α} : get? members name = some part ↔ (name, part) ∈ members := by
  induction members with
  | nil => simp [get?]
  | cons first rest ih =>
    obtain ⟨key, value⟩ := first
    have hcons : names ((key, value) :: rest) = key :: names rest := rfl
    rw [hcons, List.nodup_cons] at h
    rw [get?_cons]
    by_cases hkey : name = key
    · subst hkey
      have hrest : (name, part) ∉ rest := fun hmem => h.1 (List.mem_map_of_mem hmem)
      simp [hrest, eq_comm]
    · simp [hkey, ih h.2]

/-! ## Setting one name after the other -/

/-- Sets the parts of some entries, one after the other. -/
def setAll (members : Members α) (entries : List (String × α)) : Members α :=
  entries.foldl (fun members entry => set members entry.1 entry.2) members

@[simp] theorem setAll_nil (members : Members α) : setAll members [] = members := rfl

@[simp] theorem setAll_cons (members : Members α) (entry : String × α)
    (entries : List (String × α)) :
    setAll members (entry :: entries) = setAll (set members entry.1 entry.2) entries := rfl

theorem setAll_append (members : Members α) (first second : List (String × α)) :
    setAll members (first ++ second) = setAll (setAll members first) second :=
  List.foldl_append

theorem ofList_eq_setAll (entries : List (String × α)) : ofList entries = setAll [] entries := rfl

theorem ofList_concat (entries : List (String × α)) (last : String × α) :
    ofList (entries ++ [last]) = set (ofList entries) last.1 last.2 := by
  rw [ofList_eq_setAll, setAll_append]
  rfl

/-- A name that is not set keeps its part. -/
theorem get?_setAll_of_not_mem {entries : List (String × α)} {name : String}
    (h : ∀ entry ∈ entries, entry.1 ≠ name) (members : Members α) :
    get? (setAll members entries) name = get? members name := by
  induction entries generalizing members with
  | nil => rfl
  | cons first rest ih =>
    rw [setAll_cons, ih fun entry hentry => h entry (List.mem_cons_of_mem first hentry),
      get?_set, if_neg (Ne.symm (h first List.mem_cons_self))]

/-- A name under which all settings put the same part has this part in the end. -/
theorem get?_setAll_of_forall {entries : List (String × α)} {name : String} {part : α}
    (hall : ∀ entry ∈ entries, entry.1 = name → entry.2 = part)
    (hmem : ∃ entry ∈ entries, entry.1 = name) (members : Members α) :
    get? (setAll members entries) name = some part := by
  induction entries generalizing members with
  | nil =>
    obtain ⟨entry, hentry, -⟩ := hmem
    exact absurd hentry List.not_mem_nil
  | cons first rest ih =>
    rw [setAll_cons]
    by_cases hlater : ∃ entry ∈ rest, entry.1 = name
    · exact ih (fun entry hentry => hall entry (List.mem_cons_of_mem first hentry)) hlater _
    · -- the first setting is the only one of its name
      obtain ⟨entry, hentry, hname⟩ := hmem
      have hfirst : first.1 = name := by
        rcases List.mem_cons.mp hentry with rfl | hentry
        · exact hname
        · exact absurd ⟨entry, hentry, hname⟩ hlater
      have hrest : ∀ entry ∈ rest, entry.1 ≠ name :=
        fun entry hentry hname => hlater ⟨entry, hentry, hname⟩
      rw [get?_setAll_of_not_mem hrest, get?_set, if_pos hfirst.symm,
        hall first List.mem_cons_self hfirst]

/-- With distinct names, no name has two parts. -/
theorem part_unique {members : Members α} (h : (names members).Nodup) (name : String)
    (first second : α) (hfirst : (name, first) ∈ members) (hsecond : (name, second) ∈ members) :
    first = second := by
  rw [← get?_eq_some_iff h] at hfirst hsecond
  rw [hfirst] at hsecond
  exact Option.some.inj hsecond

/-- If no name comes with two parts, exactly the entries are found. -/
theorem get?_ofList_eq_some_iff {entries : List (String × α)}
    (h : ∀ name first second, (name, first) ∈ entries → (name, second) ∈ entries → first = second)
    {name : String} {part : α} :
    get? (ofList entries) name = some part ↔ (name, part) ∈ entries := by
  by_cases hname : ∃ entry ∈ entries, entry.1 = name
  · obtain ⟨⟨key, only⟩, honly, rfl⟩ := hname
    have hall : ∀ entry ∈ entries, entry.1 = key → entry.2 = only := by
      rintro ⟨other, value⟩ hentry rfl
      exact h other value only hentry honly
    have hget : get? (ofList entries) key = some only :=
      get?_setAll_of_forall hall ⟨(key, only), honly, rfl⟩ []
    rw [hget, Option.some.injEq]
    constructor
    · rintro rfl
      exact honly
    · intro hmem
      exact h key only part honly hmem
  · have hnone : get? (ofList entries) name = none :=
      get?_setAll_of_not_mem (fun entry hentry heq => hname ⟨entry, hentry, heq⟩) []
    rw [hnone]
    refine iff_of_false (by simp) ?_
    intro hmem
    exact hname ⟨(name, part), hmem, rfl⟩

/-- Of the parts that are set under a name the last one is found. -/
theorem get?_setAll (members : Members α) (entries : List (String × α)) (name : String) :
    get? (setAll members entries) name =
      ((entries.filter fun entry => entry.1 = name).getLast?.map (·.2)).or (get? members name) := by
  induction entries generalizing members with
  | nil => rfl
  | cons first rest ih =>
    rw [setAll_cons, ih, get?_set]
    by_cases hfirst : first.1 = name
    · rw [if_pos hfirst.symm, List.filter_cons_of_pos (by simpa using hfirst), List.getLast?_cons]
      cases (rest.filter fun entry => entry.1 = name).getLast? with
      | none => rfl
      | some last => rfl
    · rw [if_neg (Ne.symm hfirst), List.filter_cons_of_neg (by simpa using hfirst)]

theorem get?_ofList_eq_none {entries : List (String × α)} {name : String}
    (h : ∀ entry ∈ entries, entry.1 ≠ name) : get? (ofList entries) name = none :=
  get?_setAll_of_not_mem h []

theorem has_setAll (members : Members α) (entries : List (String × α)) (name : String) :
    has (setAll members entries) name = (has members name || has entries name) := by
  induction entries generalizing members with
  | nil => simp [has]
  | cons first rest ih =>
    have hcons : has (first :: rest) name = ((first.1 == name) || has rest name) := rfl
    have hcomm : (name == first.1) = (first.1 == name) := Bool.beq_comm
    rw [setAll_cons, ih, has_set, hcons, hcomm]
    cases (first.1 == name) with
    | true => simp
    | false => simp

theorem isEmpty_ofList (entries : List (String × α)) :
    (ofList entries).isEmpty = entries.isEmpty := by
  cases entries with
  | nil => rfl
  | cons first rest =>
    have hhas : has (ofList (first :: rest)) first.1 = true := by
      rw [ofList_eq_setAll, has_setAll]
      simp [has]
    cases hlist : ofList (first :: rest) with
    | nil =>
      rw [hlist] at hhas
      cases hhas
    | cons _ _ => rfl

theorem nodup_names_setAll {members : Members α} (h : (names members).Nodup)
    (entries : List (String × α)) : (names (setAll members entries)).Nodup := by
  induction entries generalizing members with
  | nil => exact h
  | cons first rest ih => exact ih (nodup_names_set h first.1 first.2)

theorem nodup_names_ofList (entries : List (String × α)) : (names (ofList entries)).Nodup := by
  have hempty : (names ([] : Members α)).Nodup := List.nodup_nil
  exact nodup_names_setAll hempty entries

theorem nodup_names_filter {members : Members α} (h : (names members).Nodup)
    (p : String × α → Bool) : (names (members.filter p)).Nodup :=
  h.sublist (List.filter_sublist.map _)

/-- What holds of all parts, old and new, holds of the parts in the end. -/
theorem forall_mem_setAll {q : String × α → Prop} {entries : List (String × α)}
    (hentries : ∀ entry ∈ entries, q entry) {members : Members α} (h : ∀ entry ∈ members, q entry) :
    ∀ entry ∈ setAll members entries, q entry := by
  induction entries generalizing members with
  | nil => exact h
  | cons first rest ih =>
    refine ih (fun entry hentry => hentries entry (List.mem_cons_of_mem first hentry)) ?_
    intro entry hentry
    rcases mem_set hentry with rfl | hold
    · exact hentries first List.mem_cons_self
    · exact h entry hold

/-! ## The order of names -/

theorem filter_names_insertIndex {p : String → Bool} {name : String} (hp : p name = false)
    (members : Members α) (index : Nat) (part : α) :
    (names (insertIndex members index name part)).filter p = (names members).filter p := by
  induction members with
  | nil => simp [insertIndex, names, hp]
  | cons first rest ih =>
    have hadd : (names ((name, part) :: first :: rest)).filter p =
        (names (first :: rest)).filter p := by
      simp [names, hp]
    unfold insertIndex
    split
    · split
      · simp only [names, List.map_cons, List.filter_cons] at ih ⊢
        rw [ih]
      · exact hadd
    · exact hadd

/-- A new name comes last among the names that are no array indices. -/
theorem filter_names_set {p : String → Bool} (hp : ∀ name, p name = true → arrayIndex? name = none)
    {members : Members α} {name : String} (hnew : name ∉ names members) (part : α) :
    (names (set members name part)).filter p = (names members ++ [name]).filter p := by
  have hhas : ¬ has members name = true := fun h => hnew (has_eq_true_iff.mp h)
  rw [set, if_neg hhas, List.filter_append]
  split
  · rename_i index hindex
    have hname : p name = false := by
      by_contra h
      rw [hp name (by simpa using h)] at hindex
      cases hindex
    rw [filter_names_insertIndex hname, List.filter_singleton, hname]
    simp
  · simp [names, List.filter_append]

/-- Names that are no array indices keep the order in which they came. -/
theorem filter_names_ofList {p : String → Bool}
    (hp : ∀ name, p name = true → arrayIndex? name = none) {entries : List (String × α)}
    (h : (entries.map (·.1)).Nodup) :
    (names (ofList entries)).filter p = (entries.map (·.1)).filter p := by
  -- from the back, since it is the last name that is set to what the others have made
  induction entries using List.reverseRecOn with
  | nil => rfl
  | append_singleton entries last ih =>
    rw [List.map_append, List.nodup_append] at h
    obtain ⟨hentries, -, hdisjoint⟩ := h
    have hnew : last.1 ∉ names (ofList entries) := by
      intro hmem
      obtain ⟨entry, hentry, hname⟩ := List.mem_map.mp hmem
      have hin : entry.1 ∈ entries.map (·.1) :=
        forall_mem_setAll (q := fun entry => entry.1 ∈ entries.map (·.1))
          (fun entry hentry => List.mem_map_of_mem hentry)
          (fun _ hentry => absurd hentry List.not_mem_nil) entry hentry
      exact hdisjoint entry.1 hin last.1 (by simp) hname
    rw [ofList_concat, filter_names_set hp hnew, List.filter_append, ih hentries, List.map_append,
      List.filter_append]
    rfl

/-! ## Changing parts, leaving names out -/

theorem get?_map {β : Type} (members : Members α) (f : String → α → β) (name : String) :
    get? (members.map fun entry => (entry.1, f entry.1 entry.2)) name =
      (get? members name).map (f name) := by
  induction members with
  | nil => rfl
  | cons first rest ih =>
    rw [List.map_cons, get?_cons, get?_cons, ih]
    by_cases hname : name = first.1
    · rw [if_pos hname, if_pos hname, Option.map_some, hname]
    · rw [if_neg hname, if_neg hname]

theorem get?_filter (members : Members α) (p : String → Bool) (name : String) :
    get? (members.filter fun entry => p entry.1) name =
      if p name then get? members name else none := by
  induction members with
  | nil => simp [get?]
  | cons first rest ih =>
    rw [List.filter_cons, get?_cons]
    by_cases hfirst : p first.1 = true
    · rw [if_pos hfirst, get?_cons, ih]
      by_cases hname : name = first.1
      · simp [hname, hfirst]
      · simp [hname]
    · rw [if_neg hfirst, ih]
      by_cases hname : name = first.1
      · simp [hname, hfirst]
      · simp [hname]

end LayeredSettings.Members
