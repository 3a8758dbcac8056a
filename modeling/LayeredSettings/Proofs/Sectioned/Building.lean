import LayeredSettings.Proofs.Ini.Building
import LayeredSettings.Proofs.Sectioned.Reading

/-!
# The tree of blocks

The statements of blocks build a tree that has one section a block, under the name as it is written
and with the options as they are written. Nothing is nested yet.

* `Block.node` — the section of a block;
* `build_statements` — the statements of blocks of different names build their sections.
-/

namespace LayeredSettings.Sectioned

open Ini (Node Building)

/-- The node of an option: its text, or the constant that the text stands for. -/
def Entry.node (e : Entry) : Node := Node.ofValue (Ini.constant (.str e.text))

namespace Block

/-- The options of a block as members. -/
def members (b : Block) : Members Node := Members.ofList (b.entries.map fun e => (e.name, e.node))

/-- The section of a block. -/
def node (b : Block) : Node := .object false b.members

/-- Names that differ even in lower case are different. -/
theorem Plain.names_nodup {b : Block} (h : b.Plain) : (b.entries.map (·.name)).Nodup := by
  have hlower : ((b.entries.map (·.name)).map Text.lowerCase).Nodup := by
    rw [List.map_map]
    exact h.keys_distinct
  exact List.Nodup.of_map _ hlower

theorem Plain.name_ne_proto {b : Block} (h : b.Plain) : b.name ≠ "__proto__" := by
  intro hname
  have hpart : "__proto__" ∈ b.path := by
    rw [path, hname]
    decide +kernel
  exact (h.path_parts _ hpart).2 rfl

end Block

/-! ## Options -/

/-- The name of an option is taken as it is. -/
theorem Entry.optionName_eq {e : Entry} (h : e.Plain) :
    Ini.OptionName.of (.str e.name) = .ok { name := .text e.name, bracketed := false } := by
  apply Ini.OptionName.of_unbracketed
  rw [name, String.toList_ofList]
  exact h.key_unbracketed

/-- Giving a section an option of a new name adds it. -/
theorem assign_object {members : Members Node} {name : String}
    (hnew : members.get? name = none) (value : Node) :
    (Node.object false members).assign name false value =
      .ok (.object false (members.set name value)) := by
  rw [Node.assign_section, hnew]
  rfl

/-- An option belongs to the section that was opened last. -/
theorem add_entry {e : Entry} (he : e.Plain) (top members : Members Node) (name : String)
    (hnew : members.get? e.name = none) :
    Building.add { top := top.set name (.object false members), target := .inSection name }
        (Statement.entry e).line =
      .ok { top := top.set name (.object false (members.set e.name e.node)),
            target := .inSection name } := by
  have hsection : (top.set name (Node.object false members)).get? name =
      some (.object false members) := by
    rw [Members.get?_set, if_pos rfl]
  rw [Statement.line, Building.add_option (Entry.optionName_eq he) rfl he.key_unreserved,
    Building.give]
  simp only [hsection, assign_object hnew, Except.map, Building.put, Members.set_set]
  rfl

/-- Options of different names are added one after the other. -/
theorem foldlM_add_entries {entries : List Entry} (hplain : ∀ e ∈ entries, e.Plain)
    (hdistinct : (entries.map (·.name)).Nodup) (top members : Members Node) (name : String)
    (hnew : ∀ e ∈ entries, members.get? e.name = none) :
    (entries.map fun e => (Statement.entry e).line).foldlM Building.add
        { top := top.set name (.object false members), target := .inSection name } =
      .ok { top := top.set name
              (.object false (members.setAll (entries.map fun e => (e.name, e.node)))),
            target := .inSection name } := by
  -- with one more option in the section, the names still to come are still new
  induction entries generalizing members with
  | nil => rfl
  | cons e rest ih =>
    rw [List.map_cons, List.nodup_cons] at hdistinct
    have hrest : ∀ other ∈ rest, (members.set e.name e.node).get? other.name = none := by
      intro other hother
      have hne : other.name ≠ e.name := fun heq => hdistinct.1 (heq ▸ List.mem_map_of_mem hother)
      rw [Members.get?_set, if_neg hne]
      exact hnew other (List.mem_cons_of_mem e hother)
    rw [List.map_cons, List.foldlM_cons,
      add_entry (hplain e List.mem_cons_self) top members name (hnew e List.mem_cons_self)]
    exact ih (fun other hother => hplain other (List.mem_cons_of_mem e hother)) hdistinct.2
      (members.set e.name e.node) hrest

/-! ## Sections -/

/-- A header opens its section, anew if there is nothing under its name. -/
theorem add_header_eq (b : Building) {name : String} (hproto : name ≠ "__proto__") :
    b.add (Statement.header name).line =
      .ok { top := if (b.top.get? name).all Node.isVoid then b.top.set name Node.emptySection
              else b.top
            target := .inSection name } := by
  show b.openSection (.str name) = _
  unfold Building.openSection
  split
  · rename_i heq
    exact absurd (Value.str.inj heq) hproto
  · simp only [Node.ofValue, Node.text?, bind, Except.bind]
    cases b.top.get? name with
    | none => rfl
    | some node =>
      simp only [Option.all_some]
      split
      · rfl
      · rfl

/-- The header of a section of a new name opens it. -/
theorem add_header {b : Building} {name : String} (hproto : name ≠ "__proto__")
    (hnew : b.top.get? name = none) :
    b.add (Statement.header name).line =
      .ok { top := b.top.set name (.object false []), target := .inSection name } := by
  rw [add_header_eq b hproto, hnew]
  rfl

/-- The header of a section that is there opens it again. -/
theorem add_header_again {b : Building} {name : String} (hproto : name ≠ "__proto__")
    {members : Members Node} (hold : b.top.get? name = some (.object false members)) :
    b.add (Statement.header name).line = .ok { top := b.top, target := .inSection name } := by
  rw [add_header_eq b hproto, hold]
  rfl

/-- The statements of a block of a new name add its section. -/
theorem foldlM_add_block {b : Block} (hplain : b.Plain) {building : Building}
    (hnew : building.top.get? b.name = none) :
    (b.statements.map Statement.line).foldlM Building.add building =
      .ok { top := building.top.set b.name b.node, target := .inSection b.name } := by
  rw [Block.statements, List.map_cons, List.foldlM_cons, add_header hplain.name_ne_proto hnew,
    List.map_map]
  exact foldlM_add_entries hplain.entries_plain hplain.names_nodup building.top [] b.name
    (fun _ _ => rfl)

/-- The statements of blocks of new names add their sections one after the other. -/
theorem foldlM_add_blocks {blocks : List Block} (hplain : PlainBlocks blocks) (building : Building)
    (hnew : ∀ b ∈ blocks, building.top.get? b.name = none) :
    ∃ target, ((blocks.flatMap Block.statements).map Statement.line).foldlM Building.add building =
      .ok { top := building.top.setAll (blocks.map fun b => (b.name, b.node)), target } := by
  induction blocks generalizing building with
  | nil => exact ⟨building.target, rfl⟩
  | cons b rest ih =>
    obtain ⟨hfirst, hdistinct⟩ := List.nodup_cons.mp hplain.names_distinct
    have hrest : PlainBlocks rest :=
      ⟨fun c hc => hplain.plain c (List.mem_cons_of_mem b hc), hdistinct⟩
    have hnewRest : ∀ c ∈ rest, (building.top.set b.name b.node).get? c.name = none := by
      intro c hc
      have hne : c.name ≠ b.name := fun heq => hfirst (List.mem_map.mpr ⟨c, hc, heq⟩)
      rw [Members.get?_set, if_neg hne]
      exact hnew c (List.mem_cons_of_mem b hc)
    obtain ⟨target, htarget⟩ := ih hrest
      { top := building.top.set b.name b.node, target := .inSection b.name } hnewRest
    refine ⟨target, ?_⟩
    rw [List.flatMap_cons, List.map_append, List.foldlM_append,
      foldlM_add_block (hplain.plain b List.mem_cons_self) (hnew b List.mem_cons_self)]
    exact htarget

/-- The statements of blocks of different names build their sections. -/
theorem build_statements {blocks : List Block} (h : PlainBlocks blocks) :
    Ini.build ((blocks.flatMap Block.statements).map Statement.line) =
      .ok (Members.ofList (blocks.map fun b => (b.name, b.node))) := by
  obtain ⟨target, htarget⟩ := foldlM_add_blocks h { top := [], target := .top } (fun _ _ => rfl)
  rw [Ini.build, htarget]
  rfl

end LayeredSettings.Sectioned
