import LayeredSettings.Proofs.Sectioned.Flattening

/-!
# What becomes of the sections of any tree

Whatever a tree is made of, gathering its sections only adds sections. A node with members at the
top is a section of the document, or has sections below it; any other node at the top is a failure.

* `Gathers`, `gathers_of_gather` — what gathering the members of a node adds;
* `Covers`, `covers_of_sectionsOf` — what a document has of a node at the top;
* `sectionsOf_eq_error` — the two ways in which a tree has no document.
-/

namespace LayeredSettings.Sectioned

open Ini (Node)

/-- Whether a name is one of a section below the section of another. -/
def Below (name other : String) : Prop := (name ++ ".").toList <+: other.toList

instance (name other : String) : Decidable (Below name other) :=
  inferInstanceAs (Decidable ((name ++ ".").toList <+: other.toList))

theorem below_append (name key : String) : Below name (name ++ "." ++ key) := by
  rw [Below, String.toList_append (s := name ++ ".")]
  exact List.prefix_append _ _

theorem Below.trans {name middle other : String} (h : Below name middle)
    (hother : Below middle other) : Below name other := by
  have hmiddle : middle.toList <+: (middle ++ ".").toList := by
    rw [String.toList_append]
    exact List.prefix_append _ _
  exact (List.IsPrefix.trans h hmiddle).trans hother

/-! ## Gathering -/

theorem Gathered.has_close {g : Gathered} {name other : String} (h : g.sections.has other = true) :
    (g.close name).has other = true := by
  rw [close]
  split
  · exact h
  · simp [Members.has_set, h]

/-- A node is a section, unless it has no options and there is a section below it. -/
theorem Gathered.has_close_self_or (g : Gathered) (name : String) :
    (g.close name).has name = true ∨ g.options.isEmpty = true ∧ g.nested = true := by
  rw [close]
  split
  · rename_i h
    exact .inr (by simpa using h)
  · exact .inl (by simp [Members.has_set])

/-- What gathering the members of a node adds to what was gathered before: sections, options if
some member is no object, and sections below the node if some member is one. -/
structure Gathers (name : String) (members : List (String × Node)) (g gathered : Gathered) :
    Prop where
  sections_kept : ∀ other, g.sections.has other = true → gathered.sections.has other = true
  all_objects : gathered.options.isEmpty = true →
    g.options.isEmpty = true ∧ ∀ entry ∈ members, entry.2.isObject = true
  below_added : gathered.nested = true → g.nested = true ∨
    members ≠ [] ∧ ∃ other, Below name other ∧ gathered.sections.has other = true

theorem isEmpty_set (options : Options) (name value : String) :
    (options.set name value).isEmpty = false := by
  cases hset : options.set name value with
  | nil =>
    have hhas : (options.set name value).has name = true := by simp [Members.has_set]
    rw [hset] at hhas
    cases hhas
  | cons entry rest => rfl

theorem gathers_of_gather {name : String} {g gathered : Gathered} {members : List (String × Node)}
    (h : gather name g members = .ok gathered) : Gathers name members g gathered := by
  fun_induction gather name g members generalizing gathered with
  | case1 name g =>
    obtain rfl := Except.ok.inj h
    exact ⟨fun _ hother => hother, fun hempty => ⟨hempty, by simp⟩, .inl⟩
  | case2 name g key ordinary members rest below hbelow ihBelow ih =>
    have hbelowKept := ihBelow hbelow
    have hrest := ih h
    refine ⟨fun other hother => hrest.sections_kept other
      (Gathered.has_close (hbelowKept.sections_kept other hother)), fun hempty => ?_, fun _ => ?_⟩
    · obtain ⟨hoptions, hall⟩ := hrest.all_objects hempty
      exact ⟨hoptions, List.forall_mem_cons.mpr ⟨rfl, hall⟩⟩
    · -- the member is a section, unless there is a section further below
      have hcovered : ∃ other, Below name other ∧
          (below.close (name ++ "." ++ key)).has other = true := by
        rcases below.has_close_self_or (name ++ "." ++ key) with hhas | ⟨-, hnested⟩
        · exact ⟨_, below_append name key, hhas⟩
        · obtain ⟨-, other, hother, hhas⟩ := (hbelowKept.below_added hnested).resolve_left (by simp)
          exact ⟨other, (below_append name key).trans hother, Gathered.has_close hhas⟩
      obtain ⟨other, hother, hhas⟩ := hcovered
      exact .inr ⟨by simp, other, hother, hrest.sections_kept other hhas⟩
  | case3 => cases h
  | case4 name g key node rest hleaf value hvalue ih =>
    have hrest := ih h
    refine ⟨hrest.sections_kept, fun hempty => ?_, fun hnested => ?_⟩
    · have hoptions := (hrest.all_objects hempty).1
      rw [isEmpty_set] at hoptions
      cases hoptions
    · exact (hrest.below_added hnested).imp_right fun hbelow => ⟨by simp, hbelow.2⟩
  | case5 => cases h

/-- What sections have of a node at the top: it is a section, or all its members have members and
are sections below it, or lead to such. -/
def Covers (sections : Sections) (name : String) (node : Node) : Prop :=
  ∃ ordinary members, node = .object ordinary members ∧
    (sections.has name = true ∨
      members ≠ [] ∧ (∀ entry ∈ members, entry.2.isObject = true) ∧
        ∃ other, Below name other ∧ sections.has other = true)

theorem covers_of_addSection {sections result : Sections} {name : String} (ordinary : Bool)
    {members : Members Node} (h : addSection sections name members = .ok result) :
    (∀ other, sections.has other = true → result.has other = true) ∧
      Covers result name (.object ordinary members) := by
  obtain ⟨gathered, hgather, rfl⟩ := map_eq_ok h
  have hgathers := gathers_of_gather hgather
  refine ⟨fun other hother => Gathered.has_close (hgathers.sections_kept other hother),
    ordinary, members, rfl, ?_⟩
  rcases gathered.has_close_self_or name with hhas | ⟨hempty, hnested⟩
  · exact .inl hhas
  · obtain ⟨hne, other, hother, hhas⟩ := (hgathers.below_added hnested).resolve_left (by simp)
    exact .inr ⟨hne, (hgathers.all_objects hempty).2, other, hother, Gathered.has_close hhas⟩

theorem Covers.mono {sections result : Sections} {name : String} {node : Node}
    (h : Covers sections name node)
    (hkept : ∀ other, sections.has other = true → result.has other = true) :
    Covers result name node := by
  obtain ⟨ordinary, members, rfl, hhas | ⟨hne, hall, other, hother, hhas⟩⟩ := h
  · exact ⟨ordinary, members, rfl, .inl (hkept name hhas)⟩
  · exact ⟨ordinary, members, rfl, .inr ⟨hne, hall, other, hother, hkept other hhas⟩⟩

/-! ## Whole trees -/

/-- The sections of a tree cover all that is at its top. -/
theorem covers_of_sectionsOf {location : String} {sections result : Sections}
    {tree : List (String × Node)} (h : Document.sectionsOf location sections tree = .ok result) :
    (∀ other, sections.has other = true → result.has other = true) ∧
      ∀ entry ∈ tree, Covers result entry.1 entry.2 := by
  fun_induction Document.sectionsOf location sections tree with
  | case1 sections =>
    obtain rfl := Except.ok.inj h
    exact ⟨fun _ hother => hother, fun _ hentry => absurd hentry List.not_mem_nil⟩
  | case2 sections name ordinary members rest next hnext ih =>
    obtain ⟨hkept, hrest⟩ := ih h
    obtain ⟨hkeptNext, hcovers⟩ := covers_of_addSection ordinary hnext
    refine ⟨fun other hother => hkept other (hkeptNext other hother), fun entry hentry => ?_⟩
    rcases List.mem_cons.mp hentry with rfl | hentry
    · exact hcovers.mono hkept
    · exact hrest entry hentry
  | case3 => cases h
  | case4 => cases h

/-- A tree has no sections because of an option at its top, or because some node has no text. -/
theorem sectionsOf_eq_error {location : String} {sections : Sections}
    {tree : List (String × Node)} {failure : Failure}
    (h : Document.sectionsOf location sections tree = .error failure) :
    (∃ name, failure = Document.strayOption location name) ∨
      ∃ fault, failure = .malformed fault := by
  fun_induction Document.sectionsOf location sections tree with
  | case1 => cases h
  | case2 sections name ordinary members rest next hnext ih => exact ih h
  | case3 sections name ordinary members rest fault hfault =>
    exact .inr ⟨fault, (Except.error.inj h).symm⟩
  | case4 sections name node rest hnode => exact .inl ⟨name, (Except.error.inj h).symm⟩

/-! ## Sound trees -/

section

variable {walked : String → Prop} {size : Nat}

/-- A sound tree has sections unless there is an option at its top. -/
theorem sectionsOf_eq_error_of_sound {location : String} {sections : Sections}
    {tree : List (String × Node)} (h : ∀ entry ∈ tree, entry.2.Sound walked size)
    (hsize : size ≤ Node.longestJoined) {failure : Failure}
    (herror : Document.sectionsOf location sections tree = .error failure) :
    ∃ name, failure = Document.strayOption location name := by
  fun_induction Document.sectionsOf location sections tree with
  | case1 => cases herror
  | case2 sections name ordinary members rest next hnext ih =>
    exact ih (List.forall_mem_cons.mp h).2 herror
  | case3 sections name ordinary members rest fault hfault =>
    cases (List.forall_mem_cons.mp h).1 with
    | leaf hleaf => exact hleaf.elim
    | branch hall hfree =>
      rw [addSection_eq fun entry hentry => (hall entry hentry).legible hsize] at hfault
      cases hfault
  | case4 sections name node rest hnode => exact ⟨name, (Except.error.inj herror).symm⟩

end

end LayeredSettings.Sectioned
