import LayeredSettings.Proofs.Sectioned.Flattening

/-!
# The sections of decoded trees

A tree of options and sections whose names have no dots is laid out flat without loss: each of its
nodes that has an option, or no node below it, becomes one section, named by the path to the node
and made of the node's own options. Nothing else changes, and there is no result only if some list
is too long to have a text.

* `lastOption?`, `HoldsOptions` — the options that the members of a node leave;
* `membersAt?`, `nameBelow` — the nodes of a tree, and the names of their sections;
* `Flattens`, `addSection_flattens` — what sections with those of a tree are.
-/

namespace LayeredSettings.Sectioned

open Ini (Node)

/-! ## Options -/

/-- The option that members leave under a name: the last one whose name is this in lower case. -/
def lastOption? (members : List (String × Node)) (name : String) : Option Node :=
  (members.filter fun entry => !entry.2.isObject && Text.lowerCase entry.1 == name).getLast?.map
    (·.2)

/-- Options that are what the members of a node leave, under each name once. -/
structure HoldsOptions (members : List (String × Node)) (options : Options) : Prop where
  option_iff : ∀ name text, options.get? name = some text ↔
    ∃ node, lastOption? members name = some node ∧ node.IsOption text
  names_nodup : options.names.Nodup

theorem lastOption?_concat (members : List (String × Node)) (key : String) (node : Node)
    (name : String) :
    lastOption? (members ++ [(key, node)]) name =
      if node.isObject = false ∧ Text.lowerCase key = name then some node
      else lastOption? members name := by
  have hcounts : (!node.isObject && Text.lowerCase key == name) =
      decide (node.isObject = false ∧ Text.lowerCase key = name) := by
    rw [Bool.eq_iff_iff]
    simp
  rw [lastOption?, List.filter_append, List.filter_singleton]
  simp only [hcounts]
  by_cases hoption : node.isObject = false ∧ Text.lowerCase key = name
  · rw [decide_eq_true hoption, if_pos hoption, cond_true, List.getLast?_concat]
    rfl
  · rw [decide_eq_false hoption, if_neg hoption, cond_false, List.append_nil]
    rfl

theorem exists_of_lastOption? {members : List (String × Node)} {name : String} {node : Node}
    (h : lastOption? members name = some node) :
    ∃ entry ∈ members, entry.2 = node ∧ node.isObject = false := by
  obtain ⟨entry, hlast, rfl⟩ := Option.map_eq_some_iff.mp h
  obtain ⟨hmem, hoption⟩ := List.mem_filter.mp (List.mem_of_getLast? hlast)
  rw [Bool.and_eq_true, Bool.not_eq_true'] at hoption
  exact ⟨entry, hmem, rfl, hoption.1⟩

/-- A section has under each name the text of the last option of that name. -/
theorem get?_ownOptions_eq {members : List (String × Node)}
    (h : ∀ entry ∈ members, entry.2.Legible) (name : String) :
    (ownOptions members).get? name =
      (lastOption? members name).bind fun node => node.optionText.toOption := by
  -- from the back, since it is the last option that counts
  induction members using List.reverseRecOn with
  | nil => rfl
  | append_singleton members last ih =>
    obtain ⟨key, node⟩ := last
    have hnode : node.Legible := h (key, node) (by simp)
    have hmembers := ih fun entry hentry => h entry (List.mem_append_left _ hentry)
    rw [lastOption?_concat, ownOptions, List.filterMap_append]
    cases hobject : node.isObject with
    | true =>
      rw [List.filterMap_cons_none ((ownOption?_eq_none_iff hnode).mpr hobject),
        List.filterMap_nil, List.append_nil, if_neg (by simp)]
      exact hmembers
    | false =>
      obtain ⟨text, htext⟩ := hnode.exists_optionText hobject
      rw [List.filterMap_cons_some (ownOption?_eq (Node.isObject_eq_false_iff.mp hobject) htext),
        List.filterMap_nil, Members.ofList_concat, Members.get?_set]
      by_cases hname : Text.lowerCase key = name
      · rw [if_pos hname.symm, if_pos ⟨rfl, hname⟩, Option.bind_some, htext]
        rfl
      · rw [if_neg (Ne.symm hname), if_neg (fun hboth => hname hboth.2)]
        exact hmembers

theorem holdsOptions_ownOptions {named : String → Prop} {ordinary : Bool} {members : Members Node}
    (h : (Node.object ordinary members).Decoded named)
    (hlegible : ∀ entry ∈ members, entry.2.Legible) :
    HoldsOptions members (ownOptions members) := by
  refine ⟨fun name text => ?_, Members.nodup_names_ofList _⟩
  rw [get?_ownOptions_eq hlegible, Option.bind_eq_some_iff]
  refine exists_congr fun node => and_congr_right fun hlast => ?_
  obtain ⟨entry, hentry, rfl, hobject⟩ := exists_of_lastOption? hlast
  rw [(h.of_mem hentry).2.isOption_iff hobject (hlegible entry hentry)]
  cases entry.2.optionText with
  | error fault => simp [Except.toOption]
  | ok s => simp [Except.toOption]

/-! ## Nodes and names -/

/-- Names that are one part of a path. -/
def IsUndotted (name : String) : Prop := '.' ∉ name.toList

instance (name : String) : Decidable (IsUndotted name) :=
  inferInstanceAs (Decidable ('.' ∉ name.toList))

/-- The members of the node that a path leads to. -/
def membersAt? (root : Node) (path : List String) : Option (Members Node) :=
  match root.at? path with
  | some (.object _ members) => some members
  | _ => none

/-- The name of the section that a path leads to, in a tree that is the section of a name. -/
def nameBelow (name : String) (path : List String) : String := Text.joinWith '.' (name :: path)

/-- Whether a node with these members is a section: it has an option, or no node below it. -/
def IsSection (members : List (String × Node)) : Prop :=
  (∃ entry ∈ members, entry.2.isObject = false) ∨ ∀ entry ∈ members, entry.2.isObject = false

/-- What sections are once those of a tree, which is the section of a name, are among them. -/
structure Flattens (sections : Sections) (name : String) (root : Node) (result : Sections) :
    Prop where
  /-- Distinct nodes have distinct names. -/
  names_apart : ∀ p q first second, membersAt? root p = some first →
    membersAt? root q = some second → nameBelow name p = nameBelow name q → p = q
  /-- A node that is a section has its own options, and no others. -/
  has_section : ∀ path members, membersAt? root path = some members → IsSection members →
    ∃ options, result.get? (nameBelow name path) = some options ∧ HoldsOptions members options
  /-- No section is added for anything else. -/
  keeps_others : ∀ other, (∀ path members, membersAt? root path = some members →
    IsSection members → nameBelow name path ≠ other) → result.get? other = sections.get? other
  names_nodup : sections.names.Nodup → result.names.Nodup

theorem membersAt?_eq_some_iff {root : Node} {path : List String} {members : Members Node} :
    membersAt? root path = some members ↔
      ∃ ordinary, root.at? path = some (.object ordinary members) := by
  rw [membersAt?]
  split
  · rename_i ordinary found hat
    rw [hat]
    simp
  · rename_i hnone
    exact iff_of_false (by simp) fun ⟨ordinary, hat⟩ => hnone ordinary members hat

section

variable {ordinary : Bool} {members : Members Node} {name : String}

theorem legible_of_membersAt? {named : String → Prop}
    (h : (Node.object ordinary members).Decoded named)
    (hlegible : (Node.object ordinary members).Legible) {path : List String}
    {below : Members Node} (hbelow : membersAt? (.object ordinary members) path = some below) :
    ∀ entry ∈ below, entry.2.Legible := by
  obtain ⟨inner, hat⟩ := membersAt?_eq_some_iff.mp hbelow
  obtain ⟨-, hnode, hle⟩ := h.of_at? hat
  have hshort := Nat.le_trans hle (h.legible_iff.mp hlegible)
  exact fun _ => (hnode.legible_iff.mpr hshort).of_mem

/-- No two nodes have one name. -/
theorem eq_of_nameBelow_eq (h : (Node.object ordinary members).Decoded IsUndotted)
    (hname : IsUndotted name) {p q : List String} {first second : Members Node}
    (hp : membersAt? (.object ordinary members) p = some first)
    (hq : membersAt? (.object ordinary members) q = some second)
    (heq : nameBelow name p = nameBelow name q) : p = q := by
  have hsplit {path : List String} {below : Members Node}
      (hpath : membersAt? (.object ordinary members) path = some below) :
      Text.splitAt '.' (nameBelow name path) = name :: path := by
    obtain ⟨inner, hat⟩ := membersAt?_eq_some_iff.mp hpath
    obtain ⟨hparts, -⟩ := h.of_at? hat
    exact Text.splitAt_joinWith (List.forall_mem_cons.mpr ⟨hname, hparts⟩) (by simp)
  have hpaths : name :: p = name :: q := by rw [← hsplit hp, ← hsplit hq, heq]
  exact (List.cons.inj hpaths).2

/-- The sections of a tree before any is left out, the tree itself included, are its nodes. -/
theorem mem_sections_iff {named : String → Prop}
    (h : (Node.object ordinary members).Decoded named) {path : List String}
    {below : Members Node} :
    (path, below) ∈ sectionsBelow [name] members ++ [([name], members)] ↔
      ∃ rest, membersAt? (.object ordinary members) rest = some below ∧ path = name :: rest := by
  rw [List.mem_append, mem_sectionsBelow h, List.mem_singleton]
  simp only [membersAt?_eq_some_iff]
  constructor
  · rintro (⟨q, inner, -, rfl, hat⟩ | heq)
    · exact ⟨q, ⟨inner, hat⟩, rfl⟩
    · obtain ⟨rfl, rfl⟩ := Prod.mk.inj heq
      exact ⟨[], ⟨ordinary, rfl⟩, rfl⟩
  · rintro ⟨rest, ⟨inner, hat⟩, rfl⟩
    cases rest with
    | nil =>
      cases hat
      exact .inr rfl
    | cons first rest => exact .inl ⟨_, inner, by simp, rfl, hat⟩

/-- The sections of a tree are those of its nodes that have an option or no node below them. -/
theorem mem_keptSections_iff {named : String → Prop}
    (h : (Node.object ordinary members).Decoded named)
    (hlegible : (Node.object ordinary members).Legible) {other : String} {options : Options} :
    (other, options) ∈ keptSections (sectionsBelow [name] members ++ [([name], members)]) ↔
      ∃ path below, membersAt? (.object ordinary members) path = some below ∧ IsSection below ∧
        nameBelow name path = other ∧ ownOptions below = options := by
  rw [keptSections, List.mem_map]
  constructor
  · rintro ⟨⟨path, below⟩, hmem, heq⟩
    obtain ⟨hmem, hkept⟩ := List.mem_filter.mp hmem
    obtain ⟨rest, hbelow, rfl⟩ := (mem_sections_iff h).mp hmem
    obtain ⟨rfl, rfl⟩ := Prod.mk.inj heq
    exact ⟨rest, below, hbelow, (isKept_iff (legible_of_membersAt? h hlegible hbelow)).mp hkept,
      rfl, rfl⟩
  · rintro ⟨rest, below, hbelow, hsection, rfl, rfl⟩
    have hkept := (isKept_iff (legible_of_membersAt? h hlegible hbelow)).mpr hsection
    have hmem : (name :: rest, below) ∈ sectionsBelow [name] members ++ [([name], members)] :=
      (mem_sections_iff h).mpr ⟨rest, hbelow, rfl⟩
    exact ⟨(name :: rest, below), List.mem_filter.mpr ⟨hmem, hkept⟩, rfl⟩

/-! ## Laying out -/

theorem flattens_setAll (h : (Node.object ordinary members).Decoded IsUndotted)
    (hlegible : (Node.object ordinary members).Legible) (hname : IsUndotted name)
    (sections : Sections) :
    Flattens sections name (.object ordinary members) (Members.setAll sections
      (keptSections (sectionsBelow [name] members ++ [([name], members)]))) where
  names_apart _ _ _ _ hp hq := eq_of_nameBelow_eq h hname hp hq
  has_section path below hbelow hsection := by
    obtain ⟨inner, hat⟩ := membersAt?_eq_some_iff.mp hbelow
    refine ⟨ownOptions below, Members.get?_setAll_of_forall ?_ ?_ sections,
      holdsOptions_ownOptions (h.of_at? hat).2.1 (legible_of_membersAt? h hlegible hbelow)⟩
    · -- a section of this name is that of the same node, since no two nodes have one name
      rintro ⟨other, options⟩ hentry rfl
      obtain ⟨q, second, hsecond, -, hother, rfl⟩ := (mem_keptSections_iff h hlegible).mp hentry
      obtain rfl := eq_of_nameBelow_eq h hname hsecond hbelow hother
      rw [hbelow] at hsecond
      rw [Option.some.inj hsecond]
    · exact ⟨(nameBelow name path, ownOptions below),
        (mem_keptSections_iff h hlegible).mpr ⟨path, below, hbelow, hsection, rfl, rfl⟩, rfl⟩
  keeps_others other hother := by
    apply Members.get?_setAll_of_not_mem
    rintro ⟨found, options⟩ hentry rfl
    obtain ⟨path, below, hbelow, hsection, hpath, -⟩ := (mem_keptSections_iff h hlegible).mp hentry
    exact hother path below hbelow hsection hpath
  names_nodup hnodup := Members.nodup_names_setAll hnodup _

/-- Where the members of a node are gathered, all options have texts. -/
theorem legible_of_gather {g gathered : Gathered} {members : List (String × Node)}
    (h : gather name g members = .ok gathered) : ∀ entry ∈ members, entry.2.Legible := by
  fun_induction gather name g members generalizing gathered with
  | case1 name g => simp
  | case2 name g key inner below rest found hbelow ihBelow ih =>
    exact List.forall_mem_cons.mpr ⟨.object inner (ihBelow hbelow), ih h⟩
  | case3 => cases h
  | case4 name g key node rest hleaf value hvalue ih =>
    exact List.forall_mem_cons.mpr
      ⟨.option (Node.isObject_eq_false_iff.mpr hleaf) hvalue, ih h⟩
  | case5 => cases h

/-- A tree has no sections for one reason only. -/
theorem gather_eq_error {named : String → Prop} {g : Gathered} {fault : StructureFault}
    (h : ∀ entry ∈ members, entry.2.Decoded named) (herror : gather name g members = .error fault) :
    fault = .badLength := by
  fun_induction gather name g members generalizing fault with
  | case1 => cases herror
  | case2 name g key inner below rest found hbelow ihBelow ih =>
    exact ih (List.forall_mem_cons.mp h).2 herror
  | case3 name g key inner below rest found hbelow ihBelow =>
    obtain ⟨hnode, -⟩ := List.forall_mem_cons.mp h
    obtain rfl := Except.error.inj herror
    exact ihBelow (fun entry hentry => (hnode.of_mem hentry).2) hbelow
  | case4 name g key node rest hleaf value hvalue ih =>
    exact ih (List.forall_mem_cons.mp h).2 herror
  | case5 name g key node rest hleaf found hvalue =>
    obtain ⟨hnode, -⟩ := List.forall_mem_cons.mp h
    obtain rfl := Except.error.inj herror
    obtain ⟨s, hoption⟩ := hnode.exists_isOption (Node.isObject_eq_false_iff.mpr hleaf)
    rw [hoption.optionText_eq] at hvalue
    split_ifs at hvalue
    exact (Except.error.inj hvalue).symm

/-- A tree of options and sections without dots in their names is laid out flat, unless some list is
too long to have a text. No text is decoded to such a list, since that has more items than a text
can have characters. -/
theorem addSection_flattens (h : (Node.object ordinary members).Decoded IsUndotted)
    (hname : IsUndotted name) (sections : Sections) :
    if (Node.object ordinary members).longestList ≤ Node.longestJoined then
      ∃ result, addSection sections name members = .ok result ∧
        Flattens sections name (.object ordinary members) result
    else addSection sections name members = .error .badLength := by
  split_ifs with hshort
  · have hlegible := h.legible_iff.mpr hshort
    exact ⟨_, addSection_eq (fun _ => hlegible.of_mem) sections name,
      flattens_setAll h hlegible hname sections⟩
  · rw [addSection]
    cases hgather : gather name { sections, options := [], nested := false } members with
    | ok gathered =>
      have hlegible : (Node.object ordinary members).Legible :=
        .object ordinary (legible_of_gather hgather)
      exact absurd (h.legible_iff.mp hlegible) hshort
    | error fault =>
      obtain rfl := gather_eq_error (fun entry hentry => (h.of_mem hentry).2) hgather
      rfl

end

/-- A node below an empty name, two options of one name, and a node that is only on the way. -/
def branchingMembers : Members Node :=
  [("", .object false [("x", .text "1")]), ("Key", .ofItems [.text "p", .null]),
    ("key", .flag true), ("c", .object true [("d", .object false [])])]

theorem decoded_branchingMembers : (Node.object false branchingMembers).Decoded IsUndotted := by
  have hsingle (ordinary : Bool) {key : String} {part : Node} (hkey : IsUndotted key)
      (hpart : part.Decoded IsUndotted) :
      (Node.object ordinary [(key, part)]).Decoded IsUndotted :=
    .object ordinary (List.nodup_singleton key) (List.forall_mem_singleton.mpr hkey)
      (List.forall_mem_singleton.mpr hpart)
  have hbelow : (Node.object false [("x", .text "1")]).Decoded IsUndotted :=
    hsingle false (by decide) (.option (.constant (.text "1")))
  have hlist : (Node.ofItems [.text "p", .null]).Decoded IsUndotted :=
    .option (.list (.cons (.text "p") (.cons .null .nil)))
  have hflag : (Node.flag true).Decoded IsUndotted := .option (.constant (.flag true))
  have hpassed : (Node.object true [("d", .object false [])]).Decoded IsUndotted :=
    hsingle true (by decide) (.object false (by decide) (by decide) (by simp))
  refine .object false (by decide) (by decide) ?_
  simp only [branchingMembers, List.forall_mem_cons]
  exact ⟨hbelow, hlist, hflag, hpassed, by simp⟩

/-- Of the two options of one name the tree keeps the last, and the node on the way is no section,
so that a section of its name stays what it was. -/
theorem addSection_flattens_branchingMembers :
    (Node.object false branchingMembers).Decoded IsUndotted ∧ IsUndotted "a" ∧
      ∃ result, addSection [("a.c", [])] "a" branchingMembers = .ok result ∧
        Flattens [("a.c", [])] "a" (.object false branchingMembers) result ∧
        result.get? "a.c" = some [] ∧
        ∃ options, result.get? "a" = some options ∧ options.get? "key" = some "true" := by
  have hname : IsUndotted "a" := by decide
  have hshort : (Node.object false branchingMembers).longestList ≤ Node.longestJoined := by decide
  have hflat := addSection_flattens decoded_branchingMembers hname [("a.c", [])]
  rw [if_pos hshort] at hflat
  obtain ⟨result, hresult, hflat⟩ := hflat
  have hpassed : membersAt? (.object false branchingMembers) ["c"] =
      some [("d", .object false [])] := rfl
  have hkept : result.get? "a.c" = some [] := by
    refine hflat.keeps_others "a.c" fun path below hbelow hsection hpath => ?_
    have hjoin : nameBelow "a" ["c"] = "a.c" := by decide
    obtain rfl := hflat.names_apart path ["c"] below _ hbelow hpassed (hpath.trans hjoin.symm)
    obtain rfl := Option.some.inj (hbelow.symm.trans hpassed)
    rcases hsection with ⟨entry, hentry, hobject⟩ | hnone
    · rw [List.mem_singleton.mp hentry] at hobject
      cases hobject
    · cases hnone _ List.mem_cons_self
  obtain ⟨options, hoptions, hholds⟩ := hflat.has_section [] branchingMembers rfl
    (.inl ⟨("key", .flag true), by simp [branchingMembers], rfl⟩)
  have hupper : Text.lowerCase "Key" = "key" := by decide +kernel
  have hlower : Text.lowerCase "key" = "key" := by decide +kernel
  have hlast : lastOption? branchingMembers "key" = some (.flag true) := by
    simp [lastOption?, branchingMembers, Node.isObject, Node.ofItems, hupper, hlower]
  exact ⟨decoded_branchingMembers, hname, result, hresult, hflat, hkept, options, hoptions,
    (hholds.option_iff "key" "true").mpr ⟨_, hlast, .constant (.flag true)⟩⟩

end LayeredSettings.Sectioned
