import LayeredSettings.Proofs.Sectioned.Flattening
import LayeredSettings.Proofs.Sectioned.Nesting
import LayeredSettings.Proofs.SettingsFile.Loading

/-!
# Loading blocks

A file of blocks is loaded unless a block has to go through an option that is null. Its document has
a section for each block that is still there, with the options that are still there, once the blocks
were put in place one after the other.

* `Document.Describes` — the document of blocks that were put in place;
* `ofText_eq_error`, `ofText_eq_ok` — what becomes of a text of blocks, however it is laid out.
-/

namespace LayeredSettings.Sectioned

open Ini (Node Spot)

/-- An option of a block that is still there. -/
def HasOption (placed : List Block) (q : List String) (key value : String) : Prop :=
  ∃ b, b.path = q ∧ ∃ e ∈ b.entries, owner? placed (q ++ [e.name]) = some b ∧
    Text.lowerCase e.name = key ∧ e.text = value

/-- A section that is still there, and has options or nothing below it. -/
def HasSection (placed : List Block) (q : List String) : Prop :=
  spotOf placed q = some .branch ∧
    ((∃ key value, HasOption placed q key value) ∨
      ∀ name, spotOf placed (q ++ [name]) ≠ some .branch)

/-- The document of blocks that were put in place. -/
structure Document.Describes (d : Document) (placed : List Block) : Prop where
  isSome_iff : ∀ name, (d.sections.get? name).isSome = true ↔
    name ≠ defaultSection ∧ HasSection placed (Text.splitAt '.' name)
  option_iff : ∀ name options, d.sections.get? name = some options → ∀ key value,
    options.get? key = some value ↔ HasOption placed (Text.splitAt '.' name) key value
  default_iff : ∀ key value,
    d.defaults.get? key = some value ↔ HasOption placed [defaultSection] key value
  names_nodup : d.sections.names.Nodup
  option_names_nodup : ∀ name options, d.sections.get? name = some options → options.names.Nodup
  default_names_nodup : d.defaults.names.Nodup

/-! ## Sections and blocks -/

theorem spotOf_child_eq_leaf_iff {placed : List Block} (h : ∀ b ∈ placed, b.Plain)
    {q : List String} {name : String} {node : Node} :
    spotOf placed (q ++ [name]) = some (.leaf node) ↔
      ∃ b, b.path = q ∧ ∃ e ∈ b.entries, owner? placed (q ++ [e.name]) = some b ∧
        e.name = name ∧ e.node = node := by
  rw [spotOf_eq_leaf_iff h]
  constructor
  · rintro ⟨b, howner, e, he, heq, rfl⟩
    obtain ⟨rfl, hname⟩ := List.append_inj' heq rfl
    obtain rfl := (List.singleton_inj.mp hname).symm
    exact ⟨b, rfl, e, he, howner, rfl, rfl⟩
  · rintro ⟨b, rfl, e, he, howner, rfl, rfl⟩
    exact ⟨b, howner, e, he, rfl, rfl⟩

theorem hasOption_iff {placed : List Block} (h : ∀ b ∈ placed, b.Plain) {q : List String}
    {key value : String} :
    HasOption placed q key value ↔ ∃ name node, spotOf placed (q ++ [name]) = some (.leaf node) ∧
      Text.lowerCase name = key ∧ node.optionText = .ok value := by
  constructor
  · rintro ⟨b, hb, e, he, howner, rfl, rfl⟩
    exact ⟨e.name, e.node, (spotOf_child_eq_leaf_iff h).mpr ⟨b, hb, e, he, howner, rfl, rfl⟩, rfl,
      e.optionText_node⟩
  · rintro ⟨name, node, hspot, rfl, htext⟩
    obtain ⟨b, hb, e, he, howner, rfl, rfl⟩ := (spotOf_child_eq_leaf_iff h).mp hspot
    rw [e.optionText_node] at htext
    exact ⟨b, hb, e, he, howner, rfl, Except.ok.inj htext⟩

theorem Block.Meets.of_append {b : Block} {q rest : List String} (h : b.Meets (q ++ rest)) :
    b.Meets q := by
  rcases h with h | h
  · exact List.prefix_or_prefix_of_prefix h (List.prefix_append q rest)
  · exact .inr ((List.prefix_append q rest).trans h)

theorem owner?_of_append {placed : List Block} {q rest : List String} {b : Block}
    (howner : owner? placed q = some b) (hmeets : b.Meets (q ++ rest)) :
    owner? placed (q ++ rest) = some b := by
  obtain ⟨-, before, after, hplaced, hafter⟩ := owner?_eq_some_iff.mp howner
  refine owner?_eq_some_iff.mpr ⟨hmeets, before, after, hplaced, ?_⟩
  intro c hc hcMeets
  exact hafter c hc hcMeets.of_append

/-- What has options is a section. -/
theorem HasOption.spotOf_eq_branch {placed : List Block} (h : ∀ b ∈ placed, b.Plain)
    {q : List String} {key value : String} (hoption : HasOption placed q key value) :
    spotOf placed q = some .branch := by
  obtain ⟨b, rfl, e, -, howner, -⟩ := hoption
  obtain ⟨-, before, after, rfl, hafter⟩ := owner?_eq_some_iff.mp howner
  rw [spotOf_eq_branch_iff h, owner?_append, owner?_cons, if_pos b.meets_path]
  cases hlater : owner? after b.path with
  | none => exact ⟨b, rfl, List.prefix_rfl⟩
  | some c =>
    -- a later block leaves the option alone only if the section leads to that block
    obtain ⟨hc, hmeets⟩ := mem_of_owner? hlater
    refine ⟨c, rfl, hmeets.resolve_left ?_⟩
    intro hpre
    exact hafter c hc (.inl (hpre.trans (List.prefix_append _ _)))

/-- On the way to a block there is always something below. -/
theorem HasSection.exists_hasOption {placed : List Block} (h : ∀ b ∈ placed, b.Plain)
    {q : List String} (hq : HasSection placed q) {b : Block} (howner : owner? placed q = some b)
    (hne : b.path ≠ q) : ∃ key value, HasOption placed q key value := by
  obtain ⟨hbranch, hoption | hbelow⟩ := hq
  · exact hoption
  · exfalso
    obtain ⟨c, hc, rest, hrest⟩ := (spotOf_eq_branch_iff h).mp hbranch
    rw [howner, Option.some.injEq] at hc
    subst hc
    cases rest with
    | nil => exact hne (by simpa using hrest.symm)
    | cons name rest =>
      have hpre : q ++ [name] <+: b.path := ⟨rest, by simpa using hrest⟩
      refine hbelow name ((spotOf_eq_branch_iff h).mpr ⟨b, ?_, hpre⟩)
      exact owner?_of_append howner (.inr hpre)

/-- Only what a block is called for is a section of a document. -/
theorem HasSection.exists_block {placed : List Block} (h : ∀ b ∈ placed, b.Plain)
    {q : List String} (hq : HasSection placed q) : ∃ b ∈ placed, b.path = q := by
  obtain ⟨b, howner, -⟩ := (spotOf_eq_branch_iff h).mp hq.1
  by_cases hpath : b.path = q
  · exact ⟨b, (mem_of_owner? howner).1, hpath⟩
  · obtain ⟨key, value, c, hc, e, -, hcOwner, -⟩ := hq.exists_hasOption h howner hpath
    exact ⟨c, (mem_of_owner? hcOwner).1, hc⟩

/-! ## Trees of blocks -/

/-- A tree in which paths lead where they lead once blocks were put in place. -/
structure IsTreeOf (tree : Members Node) (placed : List Block) : Prop where
  regular : (Node.object false tree).Regular
  plain : ∀ b ∈ placed, b.Plain
  spots : ∀ q, q ≠ [] → (Node.object false tree).spot? q = spotOf placed q

variable {tree : Members Node} {placed : List Block}

theorem IsTreeOf.spotOf_append (h : IsTreeOf tree placed) {q : List String}
    {members : Members Node} (hat : (Node.object false tree).at? q = some (.object false members))
    (name : String) :
    spotOf placed (q ++ [name]) = (members.get? name).map Node.spot := by
  rw [← h.spots _ (by simp), Node.spot?, Node.at?_append, hat]
  rw [Option.bind_some, Node.at?, Node.member?]
  cases Members.get? members name with
  | none => rfl
  | some part => rfl

theorem IsTreeOf.spotOf_eq_leaf_iff (h : IsTreeOf tree placed) {q : List String}
    {members : Members Node} (hat : (Node.object false tree).at? q = some (.object false members))
    {name : String} {node : Node} :
    spotOf placed (q ++ [name]) = some (.leaf node) ↔
      members.get? name = some node ∧ ∀ ordinary inner, node ≠ .object ordinary inner := by
  rw [h.spotOf_append hat, Option.map_eq_some_iff]
  constructor
  · rintro ⟨part, hget, hspot⟩
    obtain ⟨rfl, hleaf⟩ := Node.spot_eq_leaf_iff.mp hspot
    exact ⟨hget, hleaf⟩
  · rintro ⟨hget, hleaf⟩
    exact ⟨node, hget, Node.spot_eq_leaf_iff.mpr ⟨rfl, hleaf⟩⟩

theorem IsTreeOf.spotOf_eq_branch_iff (h : IsTreeOf tree placed) {q : List String}
    (hne : q ≠ []) :
    spotOf placed q = some .branch ↔
      ∃ members, (Node.object false tree).at? q = some (.object false members) := by
  rw [← h.spots q hne, Node.spot?, Option.map_eq_some_iff]
  constructor
  · rintro ⟨node, hat, hspot⟩
    obtain ⟨ordinary, members, rfl⟩ := Node.spot_eq_branch_iff.mp hspot
    cases h.regular.of_at? hat with
    | object _ _ => exact ⟨members, hat⟩
  · rintro ⟨members, hat⟩
    exact ⟨_, hat, rfl⟩

theorem IsTreeOf.hasOption_iff (h : IsTreeOf tree placed) {q : List String}
    {members : Members Node} (hat : (Node.object false tree).at? q = some (.object false members))
    (hunique : ∀ b ∈ placed, ∀ c ∈ placed, b.path = c.path → b = c) {key value : String} :
    (ownOptions members).get? key = some value ↔ HasOption placed q key value := by
  rw [get?_ownOptions (h.regular.of_at? hat), Sectioned.hasOption_iff h.plain]
  · simp only [h.spotOf_eq_leaf_iff hat, and_assoc]
  · -- options of one section come from one block, where names differ even in lower case
    intro first second node other hfirst hsecond hnode hother hlower
    have hleaf := (h.spotOf_eq_leaf_iff hat).mpr ⟨hfirst, hnode⟩
    have hleaf' := (h.spotOf_eq_leaf_iff hat).mpr ⟨hsecond, hother⟩
    obtain ⟨b, hb, e, he, howner, rfl, -⟩ := (spotOf_child_eq_leaf_iff h.plain).mp hleaf
    obtain ⟨c, hc, f, hf, howner', rfl, -⟩ := (spotOf_child_eq_leaf_iff h.plain).mp hleaf'
    have hbMem := (mem_of_owner? howner).1
    obtain rfl := hunique b hbMem c (mem_of_owner? howner').1 (hb.trans hc.symm)
    rw [List.inj_on_of_nodup_map (h.plain b hbMem).keys_distinct he hf hlower]

theorem IsTreeOf.isKept_iff (h : IsTreeOf tree placed) {q : List String}
    {members : Members Node} (hat : (Node.object false tree).at? q = some (.object false members)) :
    isKept members = true ↔
      (∃ key value, HasOption placed q key value) ∨
        ∀ name, spotOf placed (q ++ [name]) ≠ some .branch := by
  rw [isKept_eq_true_iff (h.regular.of_at? hat)]
  refine or_congr ?_ ?_
  · constructor
    · rintro ⟨name, node, hget, hleaf⟩
      obtain ⟨value, hvalue⟩ := ((h.regular.of_at? hat).of_get? hget).exists_optionText hleaf
      refine ⟨Text.lowerCase name, value, (Sectioned.hasOption_iff h.plain).mpr ?_⟩
      exact ⟨name, node, (h.spotOf_eq_leaf_iff hat).mpr ⟨hget, hleaf⟩, rfl, hvalue⟩
    · rintro ⟨key, value, hoption⟩
      obtain ⟨name, node, hspot, -, -⟩ := (Sectioned.hasOption_iff h.plain).mp hoption
      exact ⟨name, node, (h.spotOf_eq_leaf_iff hat).mp hspot⟩
  · refine forall_congr' fun name => ?_
    rw [h.spotOf_append hat]
    constructor
    · intro hnone hspot
      obtain ⟨part, hget, hpart⟩ := Option.map_eq_some_iff.mp hspot
      obtain ⟨ordinary, inner, rfl⟩ := Node.spot_eq_branch_iff.mp hpart
      cases (h.regular.of_at? hat).of_get? hget with
      | object _ _ => exact hnone inner hget
    · intro hnot inner hget
      exact hnot (by rw [hget]; rfl)

/-- The sections that a tree of blocks is laid out to. -/
theorem IsTreeOf.get?_keptSections_eq_some_iff (h : IsTreeOf tree placed) {name : String}
    {options : Options} :
    (Members.ofList (keptSections (sectionsBelow [] tree))).get? name = some options ↔
      ∃ members, (Node.object false tree).at? (Text.splitAt '.' name) =
        some (.object false members) ∧ isKept members = true ∧ options = ownOptions members := by
  apply get?_keptSections h.regular
  intro q members hat part hpart
  have hne : q ≠ [] := List.ne_nil_of_mem hpart
  have hbranch := (h.spotOf_eq_branch_iff hne).mpr ⟨members, hat⟩
  obtain ⟨b, -, hpre⟩ := (Sectioned.spotOf_eq_branch_iff h.plain).mp hbranch
  exact isDotted_eq_false_iff.mp (Block.isDotted_of_mem_path (hpre.subset hpart))

theorem IsTreeOf.isSome_get?_keptSections (h : IsTreeOf tree placed) (name : String) :
    ((Members.ofList (keptSections (sectionsBelow [] tree))).get? name).isSome = true ↔
      HasSection placed (Text.splitAt '.' name) := by
  have hne := Text.splitAt_ne_nil '.' name
  rw [Option.isSome_iff_exists]
  simp only [h.get?_keptSections_eq_some_iff]
  constructor
  · rintro ⟨options, members, hat, hkept, -⟩
    exact ⟨(h.spotOf_eq_branch_iff hne).mpr ⟨members, hat⟩, (h.isKept_iff hat).mp hkept⟩
  · rintro ⟨hbranch, hholds⟩
    obtain ⟨members, hat⟩ := (h.spotOf_eq_branch_iff hne).mp hbranch
    exact ⟨_, members, hat, (h.isKept_iff hat).mpr hholds, rfl⟩

/-- At the top of a tree of blocks there are only sections. -/
theorem IsTreeOf.exists_of_get? (h : IsTreeOf tree placed) {name : String} {node : Node}
    (hget : tree.get? name = some node) : ∃ members, node = .object false members := by
  have hat : (Node.object false tree).at? [] = some (.object false tree) := rfl
  cases h.regular.of_get? hget with
  | object _ _ => exact ⟨_, rfl⟩
  | _ =>
    have hleaf := (h.spotOf_eq_leaf_iff hat).mpr ⟨hget, by simp⟩
    obtain ⟨b, hb, -⟩ := (spotOf_child_eq_leaf_iff h.plain).mp hleaf
    exact absurd hb b.path_ne_nil

theorem IsTreeOf.get?_options_iff (h : IsTreeOf tree placed)
    (hunique : ∀ b ∈ placed, ∀ c ∈ placed, b.path = c.path → b = c) {name : String}
    {options : Options}
    (hget : (Members.ofList (keptSections (sectionsBelow [] tree))).get? name = some options)
    (key value : String) :
    options.get? key = some value ↔ HasOption placed (Text.splitAt '.' name) key value := by
  obtain ⟨members, hat, -, rfl⟩ := h.get?_keptSections_eq_some_iff.mp hget
  exact h.hasOption_iff hat hunique

theorem IsTreeOf.nodup_option_names (h : IsTreeOf tree placed) {name : String} {options : Options}
    (hget : (Members.ofList (keptSections (sectionsBelow [] tree))).get? name = some options) :
    options.names.Nodup := by
  obtain ⟨members, -, -, rfl⟩ := h.get?_keptSections_eq_some_iff.mp hget
  exact Members.nodup_names_ofList _

/-- No block is called like the section that no file may have. -/
theorem IsTreeOf.has_reservedSection (h : IsTreeOf tree placed) :
    (Members.ofList (keptSections (sectionsBelow [] tree))).has reservedSection = false := by
  rw [Members.has_eq_isSome, Bool.eq_false_iff, ne_eq, h.isSome_get?_keptSections]
  intro hsection
  obtain ⟨b, hb, hpath⟩ := hsection.exists_block h.plain
  exact (h.plain b hb).unreserved (Block.name_of_path_eq hpath)

/-- The document of a tree of blocks: one section is taken out of the others. -/
theorem IsTreeOf.describes (h : IsTreeOf tree placed)
    (hunique : ∀ b ∈ placed, ∀ c ∈ placed, b.path = c.path → b = c) {sections : Sections}
    (hsections : sections = Members.ofList (keptSections (sectionsBelow [] tree))) :
    Document.Describes
      { sections := sections.erase defaultSection
        defaults := (sections.get? defaultSection).getD [] } placed := by
  subst hsections
  refine ⟨?_, ?_, ?_, ?_, ?_, ?_⟩
  · intro name
    show (Members.get? (Members.erase _ defaultSection) name).isSome = true ↔ _
    rw [Members.get?_erase]
    split_ifs with hname
    · simp [hname]
    · rw [h.isSome_get?_keptSections]
      simp [hname]
  · intro name options hget
    have hget : Members.get? (Members.erase _ defaultSection) name = some options := hget
    rw [Members.get?_erase] at hget
    split_ifs at hget
    exact h.get?_options_iff hunique hget
  · intro key value
    cases hget : (Members.ofList (keptSections (sectionsBelow [] tree))).get? defaultSection with
    | some options =>
      have hoption := h.get?_options_iff hunique hget key value
      rwa [splitAt_defaultSection] at hoption
    | none =>
      -- a block with options would have made a section
      refine iff_of_false (by simp [Members.get?]) ?_
      intro hoption
      have hsection : HasSection placed [defaultSection] :=
        ⟨hoption.spotOf_eq_branch h.plain, .inl ⟨key, value, hoption⟩⟩
      rw [← splitAt_defaultSection, ← h.isSome_get?_keptSections, hget] at hsection
      cases hsection
  · exact Members.nodup_names_filter (Members.nodup_names_ofList _) _
  · intro name options hget
    have hget : Members.get? (Members.erase _ defaultSection) name = some options := hget
    rw [Members.get?_erase] at hget
    split_ifs at hget
    exact h.nodup_option_names hget
  · show (Members.names (Option.getD _ [])).Nodup
    cases hget : (Members.ofList (keptSections (sectionsBelow [] tree))).get? defaultSection with
    | some options => exact h.nodup_option_names hget
    | none => exact List.nodup_nil

/-! ## Texts of blocks -/

/-- A text of blocks one of which has to go through a null is not loaded. -/
theorem ofText_eq_error {blocks : List Block} {text : List Char} (hplain : PlainBlocks blocks)
    (hfile : IsFileOf blocks text) (hstuck : Stuck blocks) (location : String) :
    Document.ofText location text = .error (.malformed .memberOfNull) := by
  have hdecode : Ini.decode (normalize text) = .error .memberOfNull := by
    rw [Ini.decode, readLines_of_isFileOf hplain hfile, build_statements hplain]
    exact nest_eq_error hplain hstuck
  rw [Document.ofText, hdecode]

/-- Any other text of blocks is loaded. -/
theorem ofText_eq_ok {blocks : List Block} {text : List Char} (hplain : PlainBlocks blocks)
    (hfile : IsFileOf blocks text) (hfree : ¬ Stuck blocks) (location : String) :
    ∃ d, Document.ofText location text = .ok d ∧ d.Describes (placing blocks) := by
  obtain ⟨tree, hnest, hregular, hspots⟩ := nest_eq_ok hplain hfree
  have hdecode : Ini.decode (normalize text) = .ok tree := by
    rw [Ini.decode, readLines_of_isFileOf hplain hfile, build_statements hplain]
    exact hnest
  have htree : IsTreeOf tree (placing blocks) := by
    refine ⟨hregular, hplain.plain_placing, ?_⟩
    intro q hne
    obtain ⟨name, rest, rfl⟩ := List.exists_cons_of_ne_nil hne
    exact hspots name rest
  have hunique : ∀ b ∈ placing blocks, ∀ c ∈ placing blocks, b.path = c.path → b = c :=
    fun b hb c hc => hplain.eq_of_path_eq (mem_placing.mp hb) (mem_placing.mp hc)
  rw [Document.ofText, hdecode]
  simp only [sectionsOf_eq hregular fun _ _ => htree.exists_of_get?, Except.bind,
    ← Members.ofList_eq_setAll, Document.ofSections, htree.has_reservedSection]
  exact ⟨_, rfl, htree.describes hunique rfl⟩

/-! ## Files of blocks -/

variable {blocks : List Block} {text : List Char} {w : World} {location : String}

theorem exists_load (hplain : PlainBlocks blocks) (hfile : IsFileOf blocks text)
    (hholds : w.Holds location text) (hfree : ¬ Stuck blocks) :
    ∃ d : Document, (SettingsFile.load location).run w =
      (.ok (SettingsFile.ofDocument location d), w) ∧ d.Describes (placing blocks) := by
  obtain ⟨d, htext, hd⟩ := ofText_eq_ok hplain hfile hfree location
  refine ⟨d, ?_, hd⟩
  rw [SettingsFile.run_load_of_holds hholds, htext]
  rfl

theorem describes_of_load (hplain : PlainBlocks blocks) (hfile : IsFileOf blocks text)
    (hholds : w.Holds location text) {d : Document}
    (hload : (SettingsFile.load location).run w =
      (.ok (SettingsFile.ofDocument location d), w)) :
    ¬ Stuck blocks ∧ d.Describes (placing blocks) := by
  have hfree : ¬ Stuck blocks := by
    intro hstuck
    rw [SettingsFile.run_load_of_holds hholds, ofText_eq_error hplain hfile hstuck] at hload
    cases hload
  obtain ⟨d', hload', hd⟩ := exists_load hplain hfile hholds hfree
  rw [hload] at hload'
  cases hload'
  exact ⟨hfree, hd⟩

end LayeredSettings.Sectioned
