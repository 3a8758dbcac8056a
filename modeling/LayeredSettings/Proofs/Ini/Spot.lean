import LayeredSettings.Ini.Nesting
import LayeredSettings.Proofs.Members

/-!
# Spots of a tree

A path leads to an option, to a section, or nowhere. Putting a node somewhere makes sections of all
that leads there and changes nothing that it does not stand in the way of.

* `Node.Regular` — the trees that texts without lists and objects make;
* `Node.ofText` — what the text of an option makes;
* `Node.place_eq_ok` — what every path leads to once a node was put somewhere;
* `Node.place_eq_error` — a null on the way is what stops a node.
-/

namespace LayeredSettings.Ini

/-- What stands where a path leads. -/
inductive Spot where
  | leaf (node : Node)
  | branch

namespace Node

/-- What a node is where it stands. -/
def spot : Node → Spot
  | object _ _ => .branch
  | node => .leaf node

/-- The node that a path leads to. -/
def at? (node : Node) : List String → Option Node
  | [] => some node
  | name :: rest => (node.member? name).bind fun part => part.at? rest

/-- What a path leads to. -/
def spot? (node : Node) (path : List String) : Option Spot := (node.at? path).map spot

/-- Nodes that are texts, truth values and null, and sections of such nodes under distinct
names. -/
inductive Regular : Node → Prop
  | flag (b : Bool) : Regular (flag b)
  | null : Regular null
  | text (s : String) : Regular (text s)
  | object {members : Members Node} : members.names.Nodup →
      (∀ entry ∈ members, Regular entry.2) → Regular (object false members)

/-! ## Looking up -/

theorem spot?_cons (node : Node) (name : String) (rest : List String) :
    node.spot? (name :: rest) = (node.member? name).bind fun part => part.spot? rest := by
  rw [spot?, at?]
  cases node.member? name with
  | none => rfl
  | some part => rfl

theorem spot?_object_cons (members : Members Node) (name : String) (rest : List String) :
    (object false members).spot? (name :: rest) =
      (members.get? name).bind fun part => part.spot? rest :=
  spot?_cons _ name rest

theorem at?_object_cons {ordinary : Bool} (key name : String) (node : Node) (rest : Members Node)
    (path : List String) :
    (object ordinary ((key, node) :: rest)).at? (name :: path) =
      if name = key then node.at? path else (object ordinary rest).at? (name :: path) := by
  rw [at?, at?, member?, member?, Members.get?_cons]
  split_ifs
  · rfl
  · rfl

theorem at?_eq_null_iff (node : Node) (path : List String) :
    node.at? path = some null ↔ node.spot? path = some (.leaf null) := by
  rw [spot?]
  cases node.at? path with
  | none => simp
  | some part =>
    cases part with
    | _ => simp [spot]

theorem at?_append (node : Node) (path rest : List String) :
    node.at? (path ++ rest) = (node.at? path).bind fun part => part.at? rest := by
  induction path generalizing node with
  | nil => rfl
  | cons name path ih =>
    rw [List.cons_append, at?, at?]
    cases node.member? name with
    | none => rfl
    | some part => exact ih part

theorem spot_eq_branch_iff {node : Node} :
    node.spot = .branch ↔ ∃ ordinary members, node = .object ordinary members := by
  cases node with
  | object ordinary members => simp [spot]
  | _ => simp [spot]

theorem spot_eq_leaf_iff {node leaf : Node} :
    node.spot = .leaf leaf ↔ leaf = node ∧ ∀ ordinary members, node ≠ .object ordinary members := by
  cases node with
  | object ordinary members => simp [spot]
  | _ => simp [spot, eq_comm]

/-! ## Texts -/

/-- The node of the text of an option. -/
def ofText (s : String) : Node := ofValue (constant (.str s))

theorem ofText_eq (s : String) :
    ofText s = if s = "true" then flag true else if s = "false" then flag false
      else if s = "null" then null else text s := by
  simp only [ofText, constant]
  split_ifs
  · rfl
  · rfl
  · rfl
  · rfl

theorem regular_ofText (s : String) : (ofText s).Regular := by
  rw [ofText_eq]
  split_ifs
  · exact .flag true
  · exact .flag false
  · exact .null
  · exact .text s

theorem spot_ofText (s : String) : (ofText s).spot = .leaf (ofText s) := by
  rw [ofText_eq]
  split_ifs
  · rfl
  · rfl
  · rfl
  · rfl

/-- A text stays what it is, also where it stands for a constant. -/
theorem text?_ofText (s : String) : (ofText s).text? = .ok s := by
  rw [ofText_eq]
  split_ifs with htrue hfalse hnull
  · simp [text?, htrue]
  · simp [text?, hfalse]
  · simp [text?, hnull]
  · simp [text?]

/-- So an option is read as its text. -/
theorem optionText_ofText (s : String) : (ofText s).optionText = .ok s := by
  have htext := text?_ofText s
  rw [ofText_eq] at htext ⊢
  split_ifs at htext ⊢
  · exact htext
  · exact htext
  · exact htext
  · exact htext

theorem ofText_eq_null_iff (s : String) : ofText s = null ↔ s = "null" := by
  rw [ofText_eq]
  split_ifs with htrue hfalse hnull
  · simp [htrue]
  · simp [hfalse]
  · simp [hnull]
  · simp [hnull]

/-! ## Below a node -/

/-- Only a section has anything below it. -/
theorem Regular.at?_cons_of_leaf {node : Node} (h : node.Regular)
    (hleaf : ∀ ordinary members, node ≠ .object ordinary members) (name : String)
    (rest : List String) : node.at? (name :: rest) = none := by
  cases h with
  | object _ _ => exact absurd rfl (hleaf false _)
  | _ => rfl

/-- A section that a path leads to, if only by name, is one that the path's first part is listed
for. -/
theorem mem_names_of_at? {ordinary : Bool} {members : Members Node} {name : String}
    {path : List String} {node : Node}
    (h : (object ordinary members).at? (name :: path) = some node) : name ∈ members.names := by
  rw [← Members.has_eq_true_iff, Members.has_eq_isSome]
  obtain ⟨part, hpart, -⟩ := Option.bind_eq_some_iff.mp h
  exact Option.isSome_of_mem hpart

theorem Regular.of_get? {members : Members Node} (h : (Node.object false members).Regular)
    {name : String} {part : Node} (hpart : members.get? name = some part) : part.Regular := by
  cases h with
  | object hnodup hall => exact hall (name, part) ((Members.get?_eq_some_iff hnodup).mp hpart)

theorem Regular.of_at? {node part : Node} (h : node.Regular) {path : List String}
    (hat : node.at? path = some part) : part.Regular := by
  induction path generalizing node with
  | nil =>
    obtain rfl := Option.some.inj hat
    exact h
  | cons name rest ih =>
    obtain ⟨child, hchild, hrest⟩ := Option.bind_eq_some_iff.mp hat
    cases h with
    | object hnodup hall =>
      have hobject : (Node.object false _).Regular := .object hnodup hall
      exact ih (hobject.of_get? hchild) hrest
    | _ => cases hchild

theorem Regular.set {members : Members Node} (h : (Node.object false members).Regular)
    (name : String) {part : Node} (hpart : part.Regular) :
    (Node.object false (members.set name part)).Regular := by
  cases h with
  | object hnodup hall =>
    refine .object (Members.nodup_names_set hnodup name part) ?_
    intro entry hentry
    rcases Members.mem_set hentry with rfl | hold
    · exact hpart
    · exact hall entry hold

theorem Regular.of_cons {key : String} {part : Node} {rest : Members Node}
    (h : (Node.object false ((key, part) :: rest)).Regular) :
    part.Regular ∧ (Node.object false rest).Regular ∧ key ∉ rest.names := by
  cases h with
  | object hnodup hall =>
    obtain ⟨hkey, hrest⟩ := List.nodup_cons.mp hnodup
    refine ⟨hall (key, part) List.mem_cons_self, .object hrest ?_, hkey⟩
    intro entry hentry
    exact hall entry (List.mem_cons_of_mem _ hentry)

/-- Whatever is no section has a text. -/
theorem Regular.exists_optionText {node : Node} (h : node.Regular)
    (hleaf : ∀ ordinary members, node ≠ .object ordinary members) :
    ∃ value, node.optionText = .ok value := by
  cases h with
  | flag b => exact ⟨_, by rw [optionText, text?]; simp⟩
  | null => exact ⟨_, by rw [optionText, text?]; simp⟩
  | text s => exact ⟨_, by rw [optionText, text?]; simp⟩
  | object _ _ => exact absurd rfl (hleaf false _)

theorem regular_empty : (object false []).Regular :=
  .object List.nodup_nil fun _ hentry => absurd hentry List.not_mem_nil

/-! ## Putting a node somewhere -/

/-- The members of the section that a walk goes on in, which is a new one if there is none. -/
def inner (members : Members Node) (part : String) : Members Node :=
  match members.get? part with
  | some (object _ below) => below
  | _ => []

theorem Regular.inner {members : Members Node} (h : (Node.object false members).Regular)
    (part : String) : (Node.object false (Node.inner members part)).Regular := by
  unfold Node.inner
  cases hget : members.get? part with
  | none => exact regular_empty
  | some child =>
    have hchild := h.of_get? hget
    cases hchild with
    | object hnodup hall => exact .object hnodup hall
    | _ => exact regular_empty

/-- Below its own place, the section that a walk goes on in holds what was there before. -/
theorem Regular.at?_inner {members : Members Node} (h : (Node.object false members).Regular)
    (part : String) {path : List String} (hne : path ≠ []) :
    (Node.object false (Node.inner members part)).at? path =
      (Node.object false members).at? (part :: path) := by
  obtain ⟨name, rest, rfl⟩ := List.exists_cons_of_ne_nil hne
  rw [at?, at?, member?, member?, Node.inner]
  cases hget : members.get? part with
  | none => rfl
  | some child =>
    have hchild := h.of_get? hget
    cases hchild with
    | object _ _ => rfl
    | _ => rfl

/-- A walk goes on in the section of the first part. -/
theorem place_cons {members : Members Node} (h : (object false members).Regular) {part : String}
    (hfree : members.get? part ≠ some null) (rest : List String) (name : String) (node : Node) :
    (object false members).place (part :: rest) name node =
      ((object false (inner members part)).place rest name node).bind
        fun child => .ok (object false (members.set part child)) := by
  have hset (child : Node) : (object false members).setMember part child =
      .ok (object false (members.set part child)) := rfl
  rw [place, inner]
  simp only [member?]
  cases hget : members.get? part with
  | none => simp only [bind, hset, emptySection]
  | some child =>
    have hchild := h.of_get? hget
    cases hchild with
    | null => exact absurd hget hfree
    | object _ _ => simp only [bind, hset, isContainer, if_true]
    | _ => simp only [bind, hset, emptySection, isContainer, Bool.false_eq_true, if_false]

/-- A null on the way stops a node. -/
theorem place_eq_error {members : Members Node} (h : (object false members).Regular)
    {path part : List String} (hpart : part <+: path) (hne : part ≠ [])
    (hnull : (object false members).at? part = some null) (name : String) (node : Node) :
    (object false members).place path name node = .error .memberOfNull := by
  induction path generalizing members part with
  | nil => exact absurd (List.prefix_nil.mp hpart) hne
  | cons first rest ih =>
    obtain ⟨x, below, rfl⟩ := List.exists_cons_of_ne_nil hne
    obtain ⟨rfl, hbelow⟩ := List.cons_prefix_cons.mp hpart
    -- the walk stops at the first part, or in the section that it goes on in
    by_cases hfree : members.get? x = some null
    · rw [place]
      simp only [member?, hfree]
    · have hbelowNe : below ≠ [] := by
        rintro rfl
        rw [at?, member?] at hnull
        cases hget : members.get? x with
        | none => simp [hget] at hnull
        | some child =>
          rw [hget] at hnull hfree
          exact hfree hnull
      rw [← h.at?_inner x hbelowNe] at hnull
      rw [place_cons h hfree, ih (h.inner x) hbelow hbelowNe hnull]
      rfl

/-- What every path leads to once a node was put somewhere. -/
theorem place_eq_ok {members : Members Node} (h : (object false members).Regular)
    {path : List String} (name : String) {node : Node} (hnode : node.Regular)
    (hfree : ∀ part, part <+: path → part ≠ [] →
      (object false members).at? part ≠ some null) :
    ∃ after : Members Node,
      (object false members).place path name node = .ok (object false after) ∧
      (object false after).Regular ∧
      (∀ other, (path ++ [name]).head? ≠ some other → after.get? other = members.get? other) ∧
      ∀ q, (object false after).spot? q =
        if q <+: path then some .branch
        else if path ++ [name] <+: q then node.spot? (q.drop (path.length + 1))
        else (object false members).spot? q := by
  -- the induction is on the way; the section that the walk goes on in takes the place of the node
  induction path generalizing members with
  | nil =>
    refine ⟨members.set name node, rfl, h.set name hnode, ?_, ?_⟩
    · intro other hother
      rw [Members.get?_set, if_neg]
      rintro rfl
      exact hother rfl
    intro q
    cases q with
    | nil => rfl
    | cons x rest =>
      rw [spot?_object_cons, spot?_object_cons, Members.get?_set]
      by_cases hx : x = name
      · simp [hx]
      · simp [hx, Ne.symm hx, List.cons_prefix_cons]
  | cons first rest ih =>
    have hfirst : members.get? first ≠ some null := by
      have hat := hfree [first] (by simp) (by simp)
      intro hget
      rw [at?, member?, hget] at hat
      exact hat rfl
    obtain ⟨child, hplace, hchild, -, hspot⟩ := ih (h.inner first) (by
      intro part hpart hne
      rw [h.at?_inner first hne]
      exact hfree (first :: part) (List.cons_prefix_cons.mpr ⟨rfl, hpart⟩) (by simp))
    refine ⟨members.set first (object false child), ?_, h.set first hchild, ?_, ?_⟩
    · rw [place_cons h hfirst, hplace]
      rfl
    · intro other hother
      rw [Members.get?_set, if_neg]
      rintro rfl
      exact hother rfl
    · intro q
      cases q with
      | nil => rfl
      | cons x below =>
        rw [spot?_object_cons, spot?_object_cons, Members.get?_set]
        by_cases hx : x = first
        · subst hx
          rw [if_pos rfl, Option.bind_some, hspot]
          by_cases hbelow : below <+: rest
          · simp [hbelow]
          · have hbelowNe : below ≠ [] := by
              rintro rfl
              exact hbelow List.nil_prefix
            -- what was in the section stays there, and there was nothing below what was no section
            have hinner : (object false (inner members x)).spot? below =
                (members.get? x).bind fun part => part.spot? below := by
              rw [spot?, h.at?_inner x hbelowNe, ← spot?, spot?_object_cons]
            simp [hbelow, hinner, List.cons_prefix_cons]
        · simp [hx, Ne.symm hx, List.cons_prefix_cons]

end Node

end LayeredSettings.Ini
