import LayeredSettings.Proofs.Ini.Spot
import LayeredSettings.Proofs.Sectioned.Building

/-!
# Spots of blocks

Blocks are put in place one after the other, those without dots in their names first. Where a path
leads in the end is up to the last block that the path meets: the path leads to the block or to what
the block is below, and is a section, or leads into the block, where there is nothing but its
options.

* `placing`, `owner?`, `spotOf` — the order of the blocks, the block that decides on a path, and
  what the path leads to;
* `spotOf_eq_leaf_iff`, `spotOf_eq_branch_iff` — the options and the sections.
-/

namespace LayeredSettings.Sectioned

open Ini (Node Spot)

/-- Whether a name has dots. -/
def isDotted (name : String) : Bool := name.toList.contains '.'

theorem isDotted_eq_true_iff {name : String} : isDotted name = true ↔ '.' ∈ name.toList := by
  simp [isDotted]

theorem isDotted_eq_false_iff {name : String} : isDotted name = false ↔ '.' ∉ name.toList := by
  simp [isDotted]

theorem splitAt_defaultSection : Text.splitAt '.' defaultSection = [defaultSection] := by
  decide +kernel

/-! ## The nodes of options -/

theorem Entry.node_regular (e : Entry) : e.node.Regular := Node.regular_ofText e.text

theorem Entry.spot_node (e : Entry) : e.node.spot = .leaf e.node := Node.spot_ofText e.text

theorem Entry.node_ne_object (e : Entry) (ordinary : Bool) (members : Members Node) :
    e.node ≠ .object ordinary members :=
  (Node.spot_eq_leaf_iff.mp e.spot_node).2 ordinary members

/-- An option is read as its text again, also where this stands for a constant. -/
theorem Entry.optionText_node (e : Entry) : e.node.optionText = .ok e.text :=
  Node.optionText_ofText e.text

theorem Entry.node_eq_null_iff (e : Entry) : e.node = .null ↔ e.text = "null" :=
  Node.ofText_eq_null_iff e.text

namespace Block

theorem get?_members_eq_some_iff {b : Block} (h : b.Plain) {name : String} {node : Node} :
    b.members.get? name = some node ↔ ∃ e ∈ b.entries, e.name = name ∧ e.node = node := by
  have hnames : (Members.names (b.entries.map fun e => (e.name, e.node))).Nodup := by
    rw [Members.names, List.map_map]
    exact h.names_nodup
  rw [members, Members.get?_ofList_eq_some_iff (Members.part_unique hnames)]
  simp

theorem get?_members {b : Block} (h : b.Plain) {e : Entry} (he : e ∈ b.entries) :
    b.members.get? e.name = some e.node :=
  (get?_members_eq_some_iff h).mpr ⟨e, he, rfl, rfl⟩

theorem node_regular (b : Block) : b.node.Regular := by
  refine .object (Members.nodup_names_ofList _) ?_
  refine Members.forall_mem_setAll ?_ fun _ hentry => absurd hentry List.not_mem_nil
  intro entry hentry
  obtain ⟨e, -, rfl⟩ := List.mem_map.mp hentry
  exact e.node_regular

/-! ## Paths -/

theorem path_ne_nil (b : Block) : b.path ≠ [] := Text.splitAt_ne_nil '.' b.name

theorem joinWith_path (b : Block) : Text.joinWith '.' b.path = b.name :=
  Text.joinWith_splitAt '.' b.name

theorem name_of_path_eq {b : Block} {name : String} (h : b.path = Text.splitAt '.' name) :
    b.name = name := by
  rw [← b.joinWith_path, h, Text.joinWith_splitAt]

theorem isDotted_of_mem_path {b : Block} {part : String} (h : part ∈ b.path) :
    isDotted part = false :=
  isDotted_eq_false_iff.mpr (Text.not_mem_of_mem_splitAt h)

theorem path_of_isDotted_eq_false {b : Block} (h : isDotted b.name = false) : b.path = [b.name] :=
  Text.splitAt_of_not_mem (isDotted_eq_false_iff.mp h)

/-- Whether a path leads to the block, into it, or on the way to it. -/
def Meets (b : Block) (q : List String) : Prop := b.path <+: q ∨ q <+: b.path

instance (b : Block) (q : List String) : Decidable (b.Meets q) :=
  inferInstanceAs (Decidable (_ ∨ _))

theorem meets_path (b : Block) : b.Meets b.path := .inl List.prefix_rfl

/-- What a path that meets the block leads to. -/
def spot? (b : Block) (q : List String) : Option Spot :=
  if q <+: b.path then some .branch
  else if b.path <+: q then b.node.spot? (q.drop b.path.length)
  else none

theorem spot?_node_cons {b : Block} (h : b.Plain) (name : String) (rest : List String)
    (s : Spot) : b.node.spot? (name :: rest) = some s ↔
      rest = [] ∧ ∃ e ∈ b.entries, e.name = name ∧ s = .leaf e.node := by
  rw [node, Node.spot?_object_cons]
  constructor
  · intro hspot
    obtain ⟨part, hget, hpart⟩ := Option.bind_eq_some_iff.mp hspot
    obtain ⟨e, he, hname, rfl⟩ := (get?_members_eq_some_iff h).mp hget
    cases rest with
    | nil =>
      have hleaf : s = e.node.spot := (Option.some.inj hpart).symm
      rw [e.spot_node] at hleaf
      exact ⟨rfl, e, he, hname, hleaf⟩
    | cons next rest =>
      rw [Node.spot?, e.node_regular.at?_cons_of_leaf e.node_ne_object] at hpart
      cases hpart
  · rintro ⟨rfl, e, he, rfl, rfl⟩
    rw [get?_members h he, Option.bind_some, ← e.spot_node]
    rfl

theorem spot?_eq_branch_iff {b : Block} (h : b.Plain) {q : List String} :
    b.spot? q = some .branch ↔ q <+: b.path := by
  unfold spot?
  split_ifs with hbelow habove
  · simp [hbelow]
  · obtain ⟨rest, rfl⟩ := habove
    rw [List.drop_left]
    cases rest with
    | nil => simp at hbelow
    | cons name rest =>
      rw [spot?_node_cons h]
      simp [hbelow]
  · simp [hbelow]

theorem spot?_eq_leaf_iff {b : Block} (h : b.Plain) {q : List String} {node : Node} :
    b.spot? q = some (.leaf node) ↔ ∃ e ∈ b.entries, q = b.path ++ [e.name] ∧ node = e.node := by
  unfold spot?
  split_ifs with hbelow habove
  · refine iff_of_false (by simp) ?_
    rintro ⟨e, -, rfl, -⟩
    have hlength := hbelow.length_le
    rw [List.length_append, List.length_singleton] at hlength
    omega
  · obtain ⟨rest, rfl⟩ := habove
    rw [List.drop_left]
    cases rest with
    | nil => simp at hbelow
    | cons name rest =>
      rw [spot?_node_cons h]
      simp only [Spot.leaf.injEq, List.append_cancel_left_eq, List.cons.injEq]
      constructor
      · rintro ⟨rfl, e, he, rfl, rfl⟩
        exact ⟨e, he, ⟨rfl, rfl⟩, rfl⟩
      · rintro ⟨e, he, ⟨rfl, rfl⟩, rfl⟩
        exact ⟨rfl, e, he, rfl, rfl⟩
  · refine iff_of_false (by simp) ?_
    rintro ⟨e, -, rfl, -⟩
    exact habove (List.prefix_append b.path [e.name])

end Block

/-! ## The order of the blocks -/

/-- The blocks in the order in which they are put in place. -/
def placing (blocks : List Block) : List Block :=
  blocks.filter (fun b => !isDotted b.name) ++ blocks.filter fun b => isDotted b.name

theorem mem_placing {blocks : List Block} {b : Block} : b ∈ placing blocks ↔ b ∈ blocks := by
  simp only [placing, List.mem_append, List.mem_filter]
  cases isDotted b.name with
  | true => simp
  | false => simp

theorem PlainBlocks.plain_placing {blocks : List Block} (h : PlainBlocks blocks) :
    ∀ b ∈ placing blocks, b.Plain :=
  fun b hb => h.plain b (mem_placing.mp hb)

theorem PlainBlocks.eq_of_path_eq {blocks : List Block} (h : PlainBlocks blocks) {b c : Block}
    (hb : b ∈ blocks) (hc : c ∈ blocks) (hpath : b.path = c.path) : b = c := by
  have hname : b.name = c.name := Block.name_of_path_eq hpath
  exact List.inj_on_of_nodup_map h.names_distinct hb hc hname

/-! ## The block that decides on a path -/

/-- The last of some blocks that a path meets. -/
def owner? (placed : List Block) (q : List String) : Option Block :=
  placed.reverse.find? fun b => b.Meets q

/-- What a path leads to once blocks were put in place. -/
def spotOf (placed : List Block) (q : List String) : Option Spot :=
  (owner? placed q).bind fun b => b.spot? q

theorem owner?_append (first second : List Block) (q : List String) :
    owner? (first ++ second) q = (owner? second q).or (owner? first q) := by
  rw [owner?, List.reverse_append, List.find?_append]
  rfl

theorem owner?_cons (b : Block) (later : List Block) (q : List String) :
    owner? (b :: later) q = (owner? later q).or (if b.Meets q then some b else none) := by
  rw [← List.singleton_append, owner?_append]
  by_cases h : b.Meets q
  · simp [owner?, h]
  · simp [owner?, h]

theorem owner?_concat (placed : List Block) (b : Block) (q : List String) :
    owner? (placed ++ [b]) q = if b.Meets q then some b else owner? placed q := by
  rw [owner?_append]
  by_cases h : b.Meets q
  · simp [owner?, h]
  · simp [owner?, h]

theorem owner?_eq_none_iff {placed : List Block} {q : List String} :
    owner? placed q = none ↔ ∀ b ∈ placed, ¬ b.Meets q := by
  simp [owner?]

theorem owner?_eq_some_iff {placed : List Block} {q : List String} {b : Block} :
    owner? placed q = some b ↔
      b.Meets q ∧ ∃ before after, placed = before ++ b :: after ∧ ∀ c ∈ after, ¬ c.Meets q := by
  -- the first block from the back is the last one from the front
  rw [owner?, List.find?_eq_some_iff_append]
  simp only [decide_eq_true_eq, Bool.not_eq_true', decide_eq_false_iff_not]
  constructor
  · rintro ⟨hb, after, before, heq, hafter⟩
    refine ⟨hb, before.reverse, after.reverse, ?_, fun c hc => hafter c (List.mem_reverse.mp hc)⟩
    rw [← List.reverse_reverse placed, heq]
    simp
  · rintro ⟨hb, before, after, rfl, hafter⟩
    refine ⟨hb, after.reverse, before.reverse, by simp, ?_⟩
    exact fun c hc => hafter c (List.mem_reverse.mp hc)

theorem mem_of_owner? {placed : List Block} {q : List String} {b : Block}
    (h : owner? placed q = some b) : b ∈ placed ∧ b.Meets q := by
  obtain ⟨hb, before, after, rfl, -⟩ := owner?_eq_some_iff.mp h
  exact ⟨by simp, hb⟩

theorem spotOf_concat (placed : List Block) (b : Block) (q : List String) :
    spotOf (placed ++ [b]) q = if b.Meets q then b.spot? q else spotOf placed q := by
  rw [spotOf, owner?_concat]
  split_ifs
  · rfl
  · rfl

theorem spotOf_eq_branch_iff {placed : List Block} (h : ∀ b ∈ placed, b.Plain) {q : List String} :
    spotOf placed q = some .branch ↔ ∃ b, owner? placed q = some b ∧ q <+: b.path := by
  rw [spotOf, Option.bind_eq_some_iff]
  constructor
  · rintro ⟨b, howner, hspot⟩
    exact ⟨b, howner, (Block.spot?_eq_branch_iff (h b (mem_of_owner? howner).1)).mp hspot⟩
  · rintro ⟨b, howner, hpath⟩
    exact ⟨b, howner, (Block.spot?_eq_branch_iff (h b (mem_of_owner? howner).1)).mpr hpath⟩

theorem spotOf_eq_leaf_iff {placed : List Block} (h : ∀ b ∈ placed, b.Plain) {q : List String}
    {node : Node} :
    spotOf placed q = some (.leaf node) ↔
      ∃ b, owner? placed q = some b ∧ ∃ e ∈ b.entries, q = b.path ++ [e.name] ∧ node = e.node := by
  rw [spotOf, Option.bind_eq_some_iff]
  constructor
  · rintro ⟨b, howner, hspot⟩
    exact ⟨b, howner, (Block.spot?_eq_leaf_iff (h b (mem_of_owner? howner).1)).mp hspot⟩
  · rintro ⟨b, howner, hleaf⟩
    exact ⟨b, howner, (Block.spot?_eq_leaf_iff (h b (mem_of_owner? howner).1)).mpr hleaf⟩

end LayeredSettings.Sectioned
