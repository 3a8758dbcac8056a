import LayeredSettings.Proofs.Ini.Collecting

/-!
# Decoded trees

Trees of options and sections. An option is a text, a truth value, null or a list of these, and is
read as its text or as those of its items with commas between them. A section, or an object, has
options and sections under distinct names. Only a list that is too long to be joined has no text.

* `Node.IsOption` — options, with the texts that they are read as;
* `Node.Decoded` — trees of options and sections;
* `Node.Decoded.of_at?` — what a path leads past on its way to a section;
* `Node.Decoded.legible_iff` — all options have texts if no list is too long.
-/

namespace LayeredSettings.Ini.Node

/-! ## Options -/

/-- Texts, truth values and null, with their texts. -/
inductive IsConstant : Node → String → Prop
  | text (s : String) : IsConstant (text s) s
  | flag (b : Bool) : IsConstant (flag b) (if b then "true" else "false")
  | null : IsConstant null "null"

/-- Constants and lists of constants, with the texts that they are read as. -/
inductive IsOption : Node → String → Prop
  | constant {node : Node} {s : String} : node.IsConstant s → IsOption node s
  | list {items : List Node} {texts : List String} : List.Forall₂ IsConstant items texts →
      IsOption (ofItems items) (Text.joinWith ',' texts)

mutual

/-- The length of the longest list among the options of a tree. -/
def longestList : Node → Nat
  | array length _ => length
  | object _ members => longestListAmong members
  | _ => 0

/-- The length of the longest list among members and what is below them. -/
def longestListAmong : List (String × Node) → Nat
  | [] => 0
  | (_, node) :: rest => max (longestList node) (longestListAmong rest)

end

theorem longestList_object (ordinary : Bool) (members : List (String × Node)) :
    (object ordinary members).longestList = longestListAmong members := by
  rw [longestList]

theorem longestListAmong_le_iff {members : List (String × Node)} {n : Nat} :
    longestListAmong members ≤ n ↔ ∀ entry ∈ members, entry.2.longestList ≤ n := by
  induction members with
  | nil => simp [longestListAmong]
  | cons first rest ih => rw [longestListAmong, Nat.max_le, List.forall_mem_cons, ih]

theorem isObject_eq_false_iff {node : Node} :
    node.isObject = false ↔ ∀ ordinary members, node ≠ object ordinary members := by
  cases node with
  | object ordinary members => simp [isObject]
  | _ => simp [isObject]

theorem IsConstant.text?_eq {node : Node} {s : String} (h : node.IsConstant s) :
    node.text? = .ok s := by
  cases h with
  | _ => rw [text?]

theorem IsOption.isObject_eq_false {node : Node} {s : String} (h : node.IsOption s) :
    node.isObject = false := by
  cases h with
  | list _ => rfl
  | constant hnode =>
    cases hnode with
    | _ => rfl

/-- An option has its text unless it is a list that is too long. -/
theorem IsOption.optionText_eq {node : Node} {s : String} (h : node.IsOption s) :
    node.optionText =
      if longestJoined < node.longestList then .error .badLength else .ok s := by
  cases h with
  | list hitems =>
    rw [optionText_ofItems_eq (hitems.imp fun _ _ hitem => hitem.text?_eq), ofItems, longestList]
  | constant hnode =>
    have htext := hnode.text?_eq
    have hzero : node.longestList = 0 := by
      cases hnode with
      | _ => rw [longestList] <;> simp
    have hoption : node.optionText = node.text? := by
      cases hnode with
      | _ => rw [optionText]; simp
    rw [hoption, htext, hzero, if_neg (Nat.not_lt_zero _)]

theorem IsConstant.isContainer_eq_false {node : Node} {s : String} (h : node.IsConstant s) :
    node.isContainer = false := by
  cases h with
  | _ => rfl

theorem isContainer_of_mem {items : List Node} {texts : List String}
    (h : List.Forall₂ IsConstant items texts) {item : Node} (hitem : item ∈ items) :
    item.isContainer = false := by
  induction h with
  | nil => exact absurd hitem List.not_mem_nil
  | cons hfirst _ ih =>
    rcases List.mem_cons.mp hitem with rfl | hrest
    · exact hfirst.isContainer_eq_false
    · exact ih hrest

theorem member?_of_isContainer {node : Node} (h : node.isContainer = false) (name : String) :
    node.member? name = none := by
  cases node with
  | array length members => cases h
  | object ordinary members => cases h
  | _ => rfl

/-- What is in an option, the items of a list and its length, has nothing in it. -/
theorem IsOption.isContainer_member {node part : Node} {s name : String} (h : node.IsOption s)
    (hpart : node.member? name = some part) : part.isContainer = false := by
  cases h with
  | constant hnode =>
    rw [member?_of_isContainer hnode.isContainer_eq_false] at hpart
    cases hpart
  | list hitems =>
    rw [ofItems, member?] at hpart
    split_ifs at hpart with hlength
    · obtain rfl := Option.some.inj hpart
      rfl
    · obtain ⟨⟨item, i⟩, hmem, heq⟩ := List.mem_map.mp (Members.mem_of_get? hpart)
      obtain ⟨-, rfl⟩ := Prod.mk.inj heq
      exact isContainer_of_mem hitems (List.fst_mem_of_mem_zipIdx hmem)

/-- No path leads from an option to a section. -/
theorem IsOption.at?_ne_object {node : Node} {s : String} (h : node.IsOption s)
    (path : List String) (ordinary : Bool) (members : Members Node) :
    node.at? path ≠ some (object ordinary members) := by
  intro hat
  cases path with
  | nil =>
    obtain rfl := Option.some.inj hat
    cases h.isObject_eq_false
  | cons name rest =>
    obtain ⟨part, hpart, hrest⟩ := Option.bind_eq_some_iff.mp hat
    have hcontainer := h.isContainer_member hpart
    cases rest with
    | nil =>
      obtain rfl := Option.some.inj hrest
      cases hcontainer
    | cons next rest =>
      rw [at?, member?_of_isContainer hcontainer] at hrest
      cases hrest

/-! ## Trees -/

/-- Options, and sections of options and sections under distinct names, all of them `named`. -/
inductive Decoded (named : String → Prop) : Node → Prop
  | option {node : Node} {s : String} : node.IsOption s → Decoded named node
  | object (ordinary : Bool) {members : Members Node} : members.names.Nodup →
      (∀ name ∈ members.names, named name) → (∀ entry ∈ members, Decoded named entry.2) →
      Decoded named (object ordinary members)

/-- Trees in which all options have texts. -/
inductive Legible : Node → Prop
  | option {node : Node} {s : String} : node.isObject = false → node.optionText = .ok s →
      Legible node
  | object (ordinary : Bool) {members : List (String × Node)} :
      (∀ entry ∈ members, Legible entry.2) → Legible (object ordinary members)

theorem Legible.exists_optionText {node : Node} (h : node.Legible) (hnode : node.isObject = false) :
    ∃ s, node.optionText = .ok s := by
  cases h with
  | option _ htext => exact ⟨_, htext⟩
  | object _ _ => cases hnode

theorem Legible.of_mem {ordinary : Bool} {members : List (String × Node)}
    (h : (Node.object ordinary members).Legible) {entry : String × Node}
    (hentry : entry ∈ members) : entry.2.Legible := by
  cases h with
  | option hnode _ => cases hnode
  | object _ hall => exact hall entry hentry

variable {named : String → Prop}

theorem Decoded.exists_isOption {node : Node} (h : node.Decoded named)
    (hnode : node.isObject = false) : ∃ s, node.IsOption s := by
  cases h with
  | option hoption => exact ⟨_, hoption⟩
  | object _ _ _ _ => cases hnode

theorem Decoded.of_mem {ordinary : Bool} {members : Members Node}
    (h : (Node.object ordinary members).Decoded named) {entry : String × Node}
    (hentry : entry ∈ members) : named entry.1 ∧ entry.2.Decoded named := by
  cases h with
  | option hoption => cases hoption.isObject_eq_false
  | object _ hnodup hnamed hall =>
    exact ⟨hnamed entry.1 (List.mem_map_of_mem hentry), hall entry hentry⟩

theorem Decoded.of_cons {ordinary : Bool} {key : String} {part : Node} {rest : Members Node}
    (h : (Node.object ordinary ((key, part) :: rest)).Decoded named) :
    part.Decoded named ∧ (Node.object ordinary rest).Decoded named ∧ key ∉ rest.names := by
  refine ⟨(h.of_mem List.mem_cons_self).2, ?_⟩
  cases h with
  | option hoption => cases hoption.isObject_eq_false
  | object _ hnodup hnamed hall =>
    obtain ⟨hkey, hrest⟩ := List.nodup_cons.mp hnodup
    exact ⟨.object ordinary hrest (fun name hname => hnamed name (List.mem_cons_of_mem _ hname))
      fun entry hentry => hall entry (List.mem_cons_of_mem _ hentry), hkey⟩

/-- All options of a tree have texts if no list is too long to be joined. -/
theorem Decoded.legible_iff {node : Node} (h : node.Decoded named) :
    node.Legible ↔ node.longestList ≤ longestJoined := by
  induction h with
  | option hoption =>
    have htext := hoption.optionText_eq
    constructor
    · intro hlegible
      obtain ⟨s, hs⟩ := hlegible.exists_optionText hoption.isObject_eq_false
      by_contra hlong
      rw [hs, if_pos (Nat.not_le.mp hlong)] at htext
      cases htext
    · intro hshort
      rw [if_neg (Nat.not_lt.mpr hshort)] at htext
      exact .option hoption.isObject_eq_false htext
  | object ordinary hnodup hnamed hall ih =>
    rw [longestList_object, longestListAmong_le_iff]
    constructor
    · intro hlegible entry hentry
      exact (ih entry hentry).mp (hlegible.of_mem hentry)
    · intro hshort
      exact .object ordinary fun entry hentry => (ih entry hentry).mpr (hshort entry hentry)

/-- What an option is read as is the text that it has, where it has one. -/
theorem Decoded.isOption_iff {node : Node} (h : node.Decoded named) (hnode : node.isObject = false)
    (hlegible : node.Legible) {s : String} : node.IsOption s ↔ node.optionText = .ok s := by
  have hshort : ¬ longestJoined < node.longestList := Nat.not_lt.mpr (h.legible_iff.mp hlegible)
  have htext {t : String} (hoption : node.IsOption t) : node.optionText = .ok t := by
    rw [hoption.optionText_eq, if_neg hshort]
  constructor
  · exact htext
  · intro hs
    obtain ⟨t, hoption⟩ := h.exists_isOption hnode
    rw [htext hoption] at hs
    obtain rfl := Except.ok.inj hs
    exact hoption

/-- A path to a section goes along names of the tree, and the section is a tree in itself, with no
longer lists. -/
theorem Decoded.of_at? {node : Node} (h : node.Decoded named) {path : List String} {ordinary : Bool}
    {members : Members Node} (hat : node.at? path = some (.object ordinary members)) :
    (∀ part ∈ path, named part) ∧ (Node.object ordinary members).Decoded named ∧
      (Node.object ordinary members).longestList ≤ node.longestList := by
  induction path generalizing node with
  | nil =>
    obtain rfl := Option.some.inj hat
    exact ⟨fun _ hpart => absurd hpart List.not_mem_nil, h, Nat.le_refl _⟩
  | cons name rest ih =>
    cases hnode : node with
    | object _ outer =>
      subst hnode
      obtain ⟨part, hpart, hrest⟩ := Option.bind_eq_some_iff.mp hat
      have hmem := Members.mem_of_get? hpart
      obtain ⟨hname, htree⟩ := h.of_mem hmem
      obtain ⟨hparts, hmembers, hle⟩ := ih htree hrest
      refine ⟨List.forall_mem_cons.mpr ⟨hname, hparts⟩, hmembers, Nat.le_trans hle ?_⟩
      rw [longestList_object]
      exact longestListAmong_le_iff.mp (Nat.le_refl _) _ hmem
    | _ =>
      obtain ⟨s, hoption⟩ := h.exists_isOption (by rw [hnode]; rfl)
      exact absurd hat (hoption.at?_ne_object _ _ _)

/-! ## Trees of lines -/

theorem Regular.decoded {node : Node} (h : node.Regular) : node.Decoded fun _ => True := by
  induction h with
  | flag b => exact .option (.constant (.flag b))
  | null => exact .option (.constant .null)
  | text s => exact .option (.constant (.text s))
  | object hnodup _ ih => exact .object false hnodup (fun _ _ => trivial) ih

theorem Regular.legible {node : Node} (h : node.Regular) : node.Legible := by
  induction h with
  | object _ _ ih => exact .object false ih
  | _ => exact .option rfl (by rw [optionText, text?]; simp)

theorem Sound.legible {walked : String → Prop} {size : Nat} {node : Node}
    (h : node.Sound walked size) (hsize : size ≤ longestJoined) : node.Legible := by
  induction h with
  | branch _ _ ih => exact .object false ih
  | @leaf node hleaf =>
    have hobject : node.isObject = false := by
      cases node with
      | object ordinary members => exact hleaf.elim
      | _ => rfl
    obtain ⟨s, hs⟩ := hleaf.exists_optionText hsize
    exact .option hobject hs

end LayeredSettings.Ini.Node
