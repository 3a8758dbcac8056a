import LayeredSettings.Proofs.Value.Shape

/-!
# Going into values

One goes into a value step by step, from a collection to one of its parts. In a finite value this
ends; where a value leads back to itself there is always a further step. Which of the two it is can
be seen without going anywhere: it is whether a loop is met.

* `IsNode.exists_endless_part` — the step that is always there;
* `GoesInto.le_sizeOf` — the bound on all ways into a finite value;
* `IsNode.isEndless_iff_goesInto` — a YAML document is endless exactly if one can go into it as far
  as one likes.
-/

namespace LayeredSettings.Value

variable {v part : Value} {mark n : Nat}

/-! ## Where loops are met -/

theorem isEndless_list_iff {items : List Value} :
    (list items).isEndless = true ↔ ∃ item ∈ items, item.isEndless = true := by
  rw [isEndless]
  induction items with
  | nil => simp [anyEndless]
  | cons item rest ih => simp [anyEndless, ih]

theorem isEndless_map_iff {ms : Members Value} :
    (map ms).isEndless = true ↔ ∃ entry ∈ ms, entry.2.isEndless = true := by
  rw [isEndless]
  induction ms with
  | nil => simp [anyMemberEndless]
  | cons entry rest ih =>
    rw [anyMemberEndless, Bool.or_eq_true, ih]
    simp only [List.mem_cons, or_and_right, exists_or, exists_eq_left]

theorem isEndless_list_eq_false_iff {items : List Value} :
    (list items).isEndless = false ↔ ∀ item ∈ items, item.isEndless = false := by
  rw [← Bool.not_eq_true, isEndless_list_iff]
  simp

theorem isEndless_map_eq_false_iff {ms : Members Value} :
    (map ms).isEndless = false ↔ ∀ entry ∈ ms, entry.2.isEndless = false := by
  rw [← Bool.not_eq_true, isEndless_map_iff]
  simp

theorem IsLeaf.isEndless_eq_false (h : v.IsLeaf) : v.isEndless = false := by
  cases h with
  | _ => rfl

/-- What is built from scalars alone leads back nowhere. -/
theorem BuiltFrom.isEndless_eq_false {scalar : Value → Prop} (hscalar : ∀ v, scalar v → v.IsLeaf)
    (h : BuiltFrom scalar v) : v.isEndless = false := by
  induction h with
  | scalar h => exact (hscalar _ h).isEndless_eq_false
  | list _ ih => exact isEndless_list_eq_false_iff.mpr ih
  | map _ _ ih => exact isEndless_map_eq_false_iff.mpr ih

theorem IsTree.isEndless_eq_false (h : v.IsTree) : v.isEndless = false :=
  BuiltFrom.isEndless_eq_false (fun _ hv => (IsNodeScalar.plain hv).isLeaf) h

/-- An endless value is where it is put. -/
theorem isEndless_fill {whole : Value} (hmark : mark ∈ v.marks) (hwhole : whole.isEndless = true) :
    (fill mark whole v).isEndless = true := by
  induction v using induct with
  | leaf v hleaf =>
    rw [hleaf.marks_eq_nil] at hmark
    cases hmark
  | again other =>
    rw [marks_again, List.mem_singleton] at hmark
    rwa [fill_again, if_pos hmark.symm]
  | list items ih =>
    obtain ⟨item, hitem, hmark⟩ := mem_marks_list_iff.mp hmark
    rw [fill_list, isEndless_list_iff]
    exact ⟨_, List.mem_map_of_mem hitem, ih item hitem hmark⟩
  | map ms ih =>
    obtain ⟨entry, hentry, hmark⟩ := mem_marks_map_iff.mp hmark
    rw [fill_map, isEndless_map_iff]
    exact ⟨_, List.mem_map_of_mem hentry, ih entry hentry hmark⟩
  | loop other v _ => rw [fill_loop, isEndless]

/-! ## Steps -/

/-- The parts of a value as it is looked into. -/
def parts (v : Value) : List Value :=
  match v.unroll with
  | list items => items
  | map ms => ms.map (·.2)
  | _ => []

/-- Whether one can go so many steps into a value, each to a part of what one has come to. -/
inductive GoesInto : Value → Nat → Prop
  | here (v : Value) : GoesInto v 0
  | on {v part : Value} {n : Nat} : part ∈ v.parts → GoesInto part n → GoesInto v (n + 1)

/-- From an endless value one gets to an endless part of it. -/
theorem IsNode.exists_endless_part (h : v.IsNode) (hendless : v.isEndless = true) :
    ∃ part ∈ v.parts, part.IsNode ∧ part.isEndless = true := by
  cases h with
  | scalar h =>
    rw [h.isLeaf.isEndless_eq_false] at hendless
    cases hendless
  | list h =>
    obtain ⟨item, hitem, hitemEndless⟩ := isEndless_list_iff.mp hendless
    exact ⟨item, hitem, h item hitem, hitemEndless⟩
  | map _ h =>
    obtain ⟨entry, hentry, hentryEndless⟩ := isEndless_map_iff.mp hendless
    exact ⟨entry.2, List.mem_map_of_mem hentry, h entry hentry, hentryEndless⟩
  | @loop _ mark v hcollection hmark hv =>
    -- a part that leads back has the whole loop in it once this is looked into
    have hloop : IsNode (loop mark v) := .loop hcollection hmark hv
    cases hcollection with
    | list items =>
      obtain ⟨item, hitem, hback⟩ := mem_marks_list_iff.mp hmark
      refine ⟨fill mark (loop mark (list items)) item, ?_, ?_, isEndless_fill hback hendless⟩
      · rw [parts, unroll, fill_list]
        exact List.mem_map_of_mem hitem
      · exact (isPart_list_iff.mp hv item hitem).fill hloop (List.Subset.refl _)
    | map ms =>
      obtain ⟨entry, hentry, hback⟩ := mem_marks_map_iff.mp hmark
      refine ⟨fill mark (loop mark (map ms)) entry.2, ?_, ?_, isEndless_fill hback hendless⟩
      · rw [parts, unroll, fill_map]
        exact List.mem_map.mpr ⟨_, List.mem_map_of_mem hentry, rfl⟩
      · exact ((isPart_map_iff.mp hv).2 entry hentry).fill hloop (List.Subset.refl _)
  | again hmark => cases hmark

/-- A part of a finite value is finite, and it is smaller. -/
theorem sizeOf_lt_of_mem_parts (hfinite : v.isEndless = false) (hpart : part ∈ v.parts) :
    part.isEndless = false ∧ sizeOf part < sizeOf v := by
  cases v with
  | list items =>
    refine ⟨isEndless_list_eq_false_iff.mp hfinite part hpart, ?_⟩
    have hlt := List.sizeOf_lt_of_mem hpart
    simp only [parts, unroll] at hlt
    simp only [list.sizeOf_spec]
    omega
  | map ms =>
    obtain ⟨entry, hentry, rfl⟩ := List.mem_map.mp hpart
    refine ⟨isEndless_map_eq_false_iff.mp hfinite entry hentry, ?_⟩
    have hlt := List.sizeOf_lt_of_mem hentry
    obtain ⟨name, part⟩ := entry
    simp only [Prod.mk.sizeOf_spec] at hlt
    simp only [map.sizeOf_spec]
    omega
  | loop mark v => cases hfinite
  | _ => cases hpart

theorem GoesInto.le_sizeOf (h : v.GoesInto n) (hfinite : v.isEndless = false) : n ≤ sizeOf v := by
  induction h with
  | here v => exact Nat.zero_le _
  | on hpart _ ih =>
    obtain ⟨hpartFinite, hlt⟩ := sizeOf_lt_of_mem_parts hfinite hpart
    exact Nat.lt_of_le_of_lt (ih hpartFinite) hlt

/-- A YAML document is endless exactly if one can go into it as far as one likes. -/
theorem IsNode.isEndless_iff_goesInto (h : v.IsNode) :
    v.isEndless = true ↔ ∀ n, v.GoesInto n := by
  constructor
  · intro hendless n
    induction n generalizing v with
    | zero => exact .here v
    | succ n ih =>
      obtain ⟨part, hpart, hnode, hpartEndless⟩ := h.exists_endless_part hendless
      exact .on hpart (ih hnode hpartEndless)
  · intro hgoes
    cases hfinite : v.isEndless with
    | true => rfl
    | false => exact absurd ((hgoes (sizeOf v + 1)).le_sizeOf hfinite) (Nat.not_succ_le_self _)

end LayeredSettings.Value
