import LayeredSettings.Proofs.Ini.Decoded
import LayeredSettings.Sectioned.Document

/-!
# Laying out trees flat

The sections of a tree are its nodes with members, each under the parts of its path with dots
between them. Of these a file has the ones with options and the ones with nothing below them.

* `gather_eq` — what is gathered below a node, section by section;
* `mem_sectionsBelow` — the sections below a node are the nodes with members that paths lead to;
* `isKept_iff` — which of them a file has.
-/

namespace LayeredSettings.Sectioned

open Ini (Node)

/-- An option under its lower case name, if a member is one. -/
def ownOption? : String × Node → Option (String × String)
  | (_, .object _ _) => none
  | (key, node) => node.optionText.toOption.map fun value => (Text.lowerCase key, value)

/-- The options of a section. -/
def ownOptions (members : Members Node) : Options := Members.ofList (members.filterMap ownOption?)

/-- The sections below a section, by their paths. -/
def sectionsBelow (path : List String) :
    List (String × Node) → List (List String × List (String × Node))
  | [] => []
  | (key, .object _ members) :: rest =>
    sectionsBelow (path ++ [key]) members ++ (path ++ [key], members) :: sectionsBelow path rest
  | _ :: rest => sectionsBelow path rest

/-- Whether a section is one of a file. -/
def isKept (members : List (String × Node)) : Bool :=
  !((ownOptions members).isEmpty && members.any fun entry => entry.2.isContainer)

/-- The sections of a file among some sections of a tree. -/
def keptSections (found : List (List String × List (String × Node))) : List (String × Options) :=
  (found.filter fun entry => isKept entry.2).map fun entry =>
    (Text.joinWith '.' entry.1, ownOptions entry.2)

theorem keptSections_append (first second : List (List String × List (String × Node))) :
    keptSections (first ++ second) = keptSections first ++ keptSections second := by
  simp [keptSections]

theorem keptSections_cons (path : List String) (members : List (String × Node))
    (rest : List (List String × List (String × Node))) :
    keptSections ((path, members) :: rest) =
      if isKept members then (Text.joinWith '.' path, ownOptions members) :: keptSections rest
      else keptSections rest := by
  unfold keptSections
  rw [List.filter_cons]
  split_ifs
  · rfl
  · rfl

theorem ownOption?_eq {key value : String} {node : Node}
    (hleaf : ∀ ordinary members, node ≠ .object ordinary members)
    (hvalue : node.optionText = .ok value) :
    ownOption? (key, node) = some (Text.lowerCase key, value) := by
  cases node with
  | object ordinary members => exact absurd rfl (hleaf ordinary members)
  | _ => simp only [ownOption?, hvalue, Except.toOption, Option.map_some]

theorem ownOption?_eq_none_iff {key : String} {node : Node} (h : node.Legible) :
    ownOption? (key, node) = none ↔ node.isObject = true := by
  cases h with
  | option hnode htext =>
    rw [ownOption?_eq (Node.isObject_eq_false_iff.mp hnode) htext, hnode]
    simp
  | object ordinary hall => exact iff_of_true rfl rfl

/-- A section has no options if all its members are sections. -/
theorem isEmpty_ownOptions {members : List (String × Node)}
    (h : ∀ entry ∈ members, entry.2.Legible) :
    (ownOptions members).isEmpty = members.all fun entry => entry.2.isObject := by
  rw [ownOptions, Members.isEmpty_ofList, Bool.eq_iff_iff, List.isEmpty_iff,
    List.filterMap_eq_nil_iff, List.all_eq_true]
  exact forall₂_congr fun entry hentry => ownOption?_eq_none_iff (h entry hentry)

/-- A section is one of the file if it has options, or if there is no section below it. -/
theorem isKept_iff {members : List (String × Node)} (h : ∀ entry ∈ members, entry.2.Legible) :
    isKept members = true ↔
      (∃ entry ∈ members, entry.2.isObject = false) ∨
        ∀ entry ∈ members, entry.2.isObject = false := by
  rw [isKept, isEmpty_ownOptions h]
  cases hall : members.all fun entry => entry.2.isObject with
  | false =>
    obtain ⟨entry, hentry, hobject⟩ := List.all_eq_false.mp hall
    exact iff_of_true rfl (.inl ⟨entry, hentry, by simpa using hobject⟩)
  | true =>
    -- where all members are sections, there is one below as soon as there is any member
    rw [List.all_eq_true] at hall
    cases members with
    | nil => simp
    | cons first rest =>
      have hfirst := hall first List.mem_cons_self
      have hcontainer : first.2.isContainer = true := by
        cases hnode : first.2 with
        | object ordinary members => rfl
        | _ =>
          rw [hnode] at hfirst
          cases hfirst
      refine iff_of_false (by simp [hcontainer]) ?_
      rintro (⟨entry, hentry, hobject⟩ | hnone)
      · rw [hall entry hentry] at hobject
        cases hobject
      · rw [hnone first List.mem_cons_self] at hfirst
        cases hfirst

/-! ## Gathering -/

theorem joinWith_concat {path : List String} (hne : path ≠ []) (key : String) :
    Text.joinWith '.' (path ++ [key]) = Text.joinWith '.' path ++ "." ++ key := by
  induction path with
  | nil => exact absurd rfl hne
  | cons first rest ih =>
    cases rest with
    | nil =>
      apply String.toList_injective
      simp [Text.joinWith, List.intercalate_cons_cons]
    | cons second rest =>
      have hrest := congrArg String.toList (ih (by simp))
      apply String.toList_injective
      simpa [Text.joinWith, List.intercalate_cons_cons] using hrest

theorem close_eq {sections : Sections} {path : List String} {members : List (String × Node)}
    (h : ∀ entry ∈ members, entry.2.Legible) :
    Gathered.close
        { sections, options := Members.setAll [] (members.filterMap ownOption?)
          nested := members.any fun entry => entry.2.isObject } (Text.joinWith '.' path) =
      Members.setAll sections (keptSections [(path, members)]) := by
  have hkept : ((ownOptions members).isEmpty && members.any fun entry => entry.2.isObject) =
      !isKept members := by
    rw [Bool.eq_iff_iff, Bool.and_eq_true, isEmpty_ownOptions h, Bool.not_eq_true',
      Bool.eq_false_iff, Ne, isKept_iff h]
    simp
  rw [← Members.ofList_eq_setAll, ← ownOptions, Gathered.close, keptSections_cons]
  simp only [hkept]
  cases isKept members with
  | true => rfl
  | false => rfl

theorem gather_eq {name : String} {g : Gathered} {members : List (String × Node)}
    (h : ∀ entry ∈ members, entry.2.Legible) {path : List String} (hne : path ≠ [])
    (hname : Text.joinWith '.' path = name) :
    gather name g members = .ok
      { sections := Members.setAll g.sections (keptSections (sectionsBelow path members))
        options := Members.setAll g.options (members.filterMap ownOption?)
        nested := g.nested || members.any fun entry => entry.2.isObject } := by
  fun_induction gather name g members generalizing path with
  | case1 name g => simp [sectionsBelow, keptSections]
  | case2 name g key ordinary below rest gathered hbelow ihBelow ih =>
    obtain ⟨hnode, hrest⟩ := List.forall_mem_cons.mp h
    have hall : ∀ entry ∈ below, entry.2.Legible := fun entry hentry => hnode.of_mem hentry
    have hjoin : Text.joinWith '.' (path ++ [key]) = name ++ "." ++ key := by
      rw [joinWith_concat hne, hname]
    rw [ihBelow hall (by simp) hjoin] at hbelow
    obtain rfl := Except.ok.inj hbelow
    -- sections below come first, then the section itself, then those after it
    have hsections : sectionsBelow path ((key, .object ordinary below) :: rest) =
        sectionsBelow (path ++ [key]) below ++
          ([(path ++ [key], below)] ++ sectionsBelow path rest) := by
      rw [sectionsBelow]
      rfl
    simp only [Bool.false_or, ← hjoin, close_eq hall] at ih ⊢
    rw [ih hrest hne hname, hsections, keptSections_append, keptSections_append,
      Members.setAll_append, Members.setAll_append]
    have hoption : ownOption? (key, .object ordinary below) = none := rfl
    rw [List.filterMap_cons_none hoption, List.any_cons]
    simp [Node.isObject]
  | case3 name g key ordinary below rest fault hbelow ihBelow =>
    obtain ⟨hnode, -⟩ := List.forall_mem_cons.mp h
    have hall : ∀ entry ∈ below, entry.2.Legible := fun entry hentry => hnode.of_mem hentry
    have hjoin : Text.joinWith '.' (path ++ [key]) = name ++ "." ++ key := by
      rw [joinWith_concat hne, hname]
    rw [ihBelow hall (by simp) hjoin] at hbelow
    cases hbelow
  | case4 name g key node rest hleaf value hvalue ih =>
    obtain ⟨-, hrest⟩ := List.forall_mem_cons.mp h
    have hobject : node.isObject = false :=
      Node.isObject_eq_false_iff.mpr fun ordinary members heq => hleaf ordinary members heq
    rw [ih hrest hne hname, sectionsBelow,
      List.filterMap_cons_some (ownOption?_eq hleaf hvalue), Members.setAll_cons, List.any_cons,
      hobject, Bool.false_or]
    intro _ ordinary members heq
    exact hleaf ordinary members (Prod.mk.inj heq).2
  | case5 name g key node rest hleaf fault hvalue =>
    obtain ⟨hnode, -⟩ := List.forall_mem_cons.mp h
    obtain ⟨value, hok⟩ := hnode.exists_optionText (Node.isObject_eq_false_iff.mpr hleaf)
    rw [hok] at hvalue
    cases hvalue

/-- The section of a node comes after the sections below it. -/
theorem addSection_eq {members : List (String × Node)} (h : ∀ entry ∈ members, entry.2.Legible)
    (sections : Sections) (name : String) :
    addSection sections name members = .ok (Members.setAll sections
      (keptSections (sectionsBelow [name] members ++ [([name], members)]))) := by
  have hjoin : Text.joinWith '.' [name] = name := by simp [Text.joinWith]
  rw [addSection, gather_eq h (by simp) hjoin, Except.map]
  simp only [Bool.false_or]
  rw [← hjoin, close_eq h, hjoin, keptSections_append, Members.setAll_append]

/-! ## Sections and paths -/

/-- The sections below a node are the nodes with members that paths lead to. -/
theorem mem_sectionsBelow {named : String → Prop} {ordinary : Bool} {path : List String}
    {members : List (String × Node)} (h : (Node.object ordinary members).Decoded named)
    {p : List String} {below : List (String × Node)} :
    (p, below) ∈ sectionsBelow path members ↔
      ∃ q inner, q ≠ [] ∧ p = path ++ q ∧
        (Node.object ordinary members).at? q = some (.object inner below) := by
  fun_induction sectionsBelow path members generalizing ordinary p below with
  | case1 path =>
    refine iff_of_false List.not_mem_nil ?_
    rintro ⟨q, inner, hne, -, hat⟩
    obtain ⟨name, rest, rfl⟩ := List.exists_cons_of_ne_nil hne
    cases hat
  | case2 path key inner found rest ihInner ihRest =>
    obtain ⟨hnode, hrest, hkey⟩ := h.of_cons
    -- as names are distinct, the first part of a path decides which member it leads into
    rw [List.mem_append, List.mem_cons, ihInner hnode, ihRest hrest]
    constructor
    · rintro (⟨q, last, hne, rfl, hat⟩ | heq | ⟨q, last, hne, rfl, hat⟩)
      · refine ⟨key :: q, last, by simp, by simp, ?_⟩
        rwa [Node.at?_object_cons, if_pos rfl]
      · obtain ⟨rfl, rfl⟩ := Prod.mk.inj heq
        refine ⟨[key], inner, by simp, rfl, ?_⟩
        rw [Node.at?_object_cons, if_pos rfl, Node.at?]
      · obtain ⟨name, tail, rfl⟩ := List.exists_cons_of_ne_nil hne
        refine ⟨name :: tail, last, hne, rfl, ?_⟩
        have hname : name ≠ key := fun heq => hkey (heq ▸ Node.mem_names_of_at? hat)
        rwa [Node.at?_object_cons, if_neg hname]
    · rintro ⟨q, last, hne, rfl, hat⟩
      obtain ⟨name, tail, rfl⟩ := List.exists_cons_of_ne_nil hne
      rw [Node.at?_object_cons] at hat
      split_ifs at hat with hname
      · subst hname
        cases tail with
        | nil =>
          rw [Node.at?, Option.some.injEq] at hat
          cases hat
          exact .inr (.inl rfl)
        | cons next tail => exact .inl ⟨next :: tail, last, by simp, by simp, hat⟩
      · exact .inr (.inr ⟨name :: tail, last, hne, rfl, hat⟩)
  | case3 path entry rest hleaf ih =>
    obtain ⟨key, node⟩ := entry
    obtain ⟨hnode, hrest, hkey⟩ := h.of_cons
    have hobject : node.isObject = false :=
      Node.isObject_eq_false_iff.mpr fun inner below heq => hleaf key inner below (by rw [heq])
    rw [ih hrest]
    refine exists₂_congr fun q last => and_congr_right fun hne => and_congr_right fun _ => ?_
    obtain ⟨name, tail, rfl⟩ := List.exists_cons_of_ne_nil hne
    rw [Node.at?_object_cons]
    split_ifs with hname
    · -- an option is no section and has none below it
      obtain ⟨s, hoption⟩ := hnode.exists_isOption hobject
      refine iff_of_false (fun hat => hkey ?_) (hoption.at?_ne_object tail last below)
      rw [← hname]
      exact Node.mem_names_of_at? hat
    · rfl

/-- Where all members are options, there are no sections below. -/
theorem sectionsBelow_eq_nil {members : List (String × Node)}
    (h : ∀ entry ∈ members, entry.2.isObject = false) (path : List String) :
    sectionsBelow path members = [] := by
  fun_induction sectionsBelow path members with
  | case1 => rfl
  | case2 => cases h _ List.mem_cons_self
  | case3 path entry rest hleaf ih => exact ih (List.forall_mem_cons.mp h).2

/-! ## What the sections hold -/

theorem mem_filterMap_ownOption? {members : Members Node}
    (h : (Node.object false members).Regular) {name value : String} :
    (name, value) ∈ members.filterMap ownOption? ↔
      ∃ key node, members.get? key = some node ∧
        (∀ ordinary inner, node ≠ .object ordinary inner) ∧
        Text.lowerCase key = name ∧ node.optionText = .ok value := by
  cases h with
  | object hnodup hall =>
    rw [List.mem_filterMap]
    constructor
    · rintro ⟨⟨key, node⟩, hmem, hoption⟩
      have hleaf : ∀ ordinary inner, node ≠ .object ordinary inner := by
        rintro ordinary inner rfl
        cases hoption
      obtain ⟨text, htext⟩ := (hall _ hmem).exists_optionText hleaf
      rw [ownOption?_eq hleaf htext] at hoption
      obtain ⟨rfl, rfl⟩ := Prod.mk.inj (Option.some.inj hoption)
      exact ⟨key, node, (Members.get?_eq_some_iff hnodup).mpr hmem, hleaf, rfl, htext⟩
    · rintro ⟨key, node, hget, hleaf, rfl, htext⟩
      exact ⟨(key, node), (Members.get?_eq_some_iff hnodup).mp hget, ownOption?_eq hleaf htext⟩

/-- Where no two names are the same in lower case, a section has all of its options. -/
theorem get?_ownOptions {members : Members Node} (h : (Node.object false members).Regular)
    (hdistinct : ∀ first second node other, members.get? first = some node →
      members.get? second = some other →
      (∀ ordinary inner, node ≠ .object ordinary inner) →
      (∀ ordinary inner, other ≠ .object ordinary inner) →
      Text.lowerCase first = Text.lowerCase second → first = second) {name value : String} :
    (ownOptions members).get? name = some value ↔
      ∃ key node, members.get? key = some node ∧
        (∀ ordinary inner, node ≠ .object ordinary inner) ∧
        Text.lowerCase key = name ∧ node.optionText = .ok value := by
  rw [← mem_filterMap_ownOption? h]
  apply Members.get?_ofList_eq_some_iff
  intro name first second hfirst hsecond
  obtain ⟨key, node, hget, hleaf, rfl, htext⟩ := (mem_filterMap_ownOption? h).mp hfirst
  obtain ⟨other, node', hget', hleaf', hlower, htext'⟩ := (mem_filterMap_ownOption? h).mp hsecond
  obtain rfl := hdistinct other key node' node hget' hget hleaf' hleaf hlower
  rw [hget, Option.some.injEq] at hget'
  rw [hget', htext'] at htext
  exact (Except.ok.inj htext).symm

/-- A section is one of the file if it has options, or if there is nothing below it. -/
theorem isKept_eq_true_iff {members : Members Node} (h : (Node.object false members).Regular) :
    isKept members = true ↔
      (∃ key node, members.get? key = some node ∧
        ∀ ordinary inner, node ≠ .object ordinary inner) ∨
      ∀ key inner, members.get? key ≠ some (.object false inner) := by
  have hlegible : ∀ entry ∈ members, entry.2.Legible := fun _ => h.legible.of_mem
  cases h with
  | object hnodup hall =>
    rw [isKept_iff hlegible]
    refine or_congr ?_ ?_
    · simp only [Members.get?_eq_some_iff hnodup, ← Node.isObject_eq_false_iff, Prod.exists]
    · constructor
      · intro hnone key inner hget
        have hobject := hnone _ ((Members.get?_eq_some_iff hnodup).mp hget)
        cases hobject
      · rintro hnone ⟨key, node⟩ hentry
        rw [Node.isObject_eq_false_iff]
        rintro ordinary inner rfl
        cases hall _ hentry with
        | object _ _ => exact hnone key inner ((Members.get?_eq_some_iff hnodup).mpr hentry)

/-- At the top of a tree there are only sections. -/
theorem sectionsOf_eq {location : String} {sections : Sections} {tree : Members Node}
    (h : (Node.object false tree).Regular)
    (htop : ∀ name node, tree.get? name = some node → ∃ members, node = .object false members) :
    Document.sectionsOf location sections tree =
      .ok (Members.setAll sections (keptSections (sectionsBelow [] tree))) := by
  induction tree generalizing sections with
  | nil => simp [Document.sectionsOf, sectionsBelow, keptSections]
  | cons entry rest ih =>
    obtain ⟨name, node⟩ := entry
    obtain ⟨hnode, hrest, hname⟩ := h.of_cons
    obtain ⟨members, rfl⟩ := htop name node (by rw [Members.get?_cons, if_pos rfl])
    have htopRest : ∀ other node, Members.get? rest other = some node →
        ∃ members, node = .object false members := by
      intro other node hget
      refine htop other node ?_
      have hother : other ≠ name := by
        rintro rfl
        refine hname (Members.has_eq_true_iff.mp ?_)
        rw [Members.has_eq_isSome, hget]
        rfl
      rwa [Members.get?_cons, if_neg hother]
    have hsections : sectionsBelow [] ((name, .object false members) :: rest) =
        sectionsBelow [name] members ++ [([name], members)] ++ sectionsBelow [] rest := by
      rw [sectionsBelow, List.append_assoc]
      rfl
    rw [Document.sectionsOf, addSection_eq fun _ => hnode.legible.of_mem, hsections,
      keptSections_append _ (sectionsBelow [] rest), Members.setAll_append]
    exact ih hrest htopRest

/-- The section of a name is what the parts of the name lead to. -/
theorem get?_keptSections {tree : Members Node} (h : (Node.object false tree).Regular)
    (hundotted : ∀ q members, (Node.object false tree).at? q = some (.object false members) →
      ∀ part ∈ q, '.' ∉ part.toList) {name : String} {options : Options} :
    (Members.ofList (keptSections (sectionsBelow [] tree))).get? name = some options ↔
      ∃ members, (Node.object false tree).at? (Text.splitAt '.' name) =
        some (.object false members) ∧ isKept members = true ∧ options = ownOptions members := by
  have hmem {name : String} {options : Options} :
      (name, options) ∈ keptSections (sectionsBelow [] tree) ↔
        ∃ members, (Node.object false tree).at? (Text.splitAt '.' name) =
          some (.object false members) ∧ isKept members = true ∧ options = ownOptions members := by
    rw [keptSections, List.mem_map]
    constructor
    · rintro ⟨⟨path, members⟩, hfound, heq⟩
      obtain ⟨rfl, rfl⟩ := Prod.mk.inj heq
      obtain ⟨hmem, hkept⟩ := List.mem_filter.mp hfound
      obtain ⟨q, ordinary, hne, hq, hat⟩ := (mem_sectionsBelow h.decoded).mp hmem
      obtain rfl : path = q := hq
      cases h.of_at? hat
      refine ⟨members, ?_, hkept, rfl⟩
      show (Node.object false tree).at? (Text.splitAt '.' (Text.joinWith '.' path)) = _
      rwa [Text.splitAt_joinWith (hundotted path members hat) hne]
    · rintro ⟨members, hat, hkept, rfl⟩
      refine ⟨(Text.splitAt '.' name, members), List.mem_filter.mpr ⟨?_, hkept⟩, ?_⟩
      · exact (mem_sectionsBelow h.decoded).mpr ⟨_, _, Text.splitAt_ne_nil '.' name, rfl, hat⟩
      · rw [Text.joinWith_splitAt]
  rw [Members.get?_ofList_eq_some_iff, hmem]
  intro name first second hfirst hsecond
  obtain ⟨members, hat, -, rfl⟩ := hmem.mp hfirst
  obtain ⟨others, hothers, -, rfl⟩ := hmem.mp hsecond
  rw [hat] at hothers
  cases hothers
  rfl

end LayeredSettings.Sectioned
