import LayeredSettings.Value.Basic

/-!
# Marks

A loop stands for a value without an end. Where it leads back to is told by its marks, and what is
found in it by putting the loop in the places that lead back to it.

* `Value.induct` — induction over the parts of a value;
* `mem_marks_list_iff`, `mem_marks_map_iff`, `mem_marks_loop_iff` — the marks of a value are those
  of its parts, without those that it binds;
* `fill_of_not_mem`, `mem_marks_fill`, `of_mem_marks_fill` — what filling in a mark leaves alone.
-/

namespace LayeredSettings.Value

/-! ## Induction -/

/-- The values without parts. -/
inductive IsLeaf : Value → Prop
  | absent : IsLeaf .absent
  | null : IsLeaf .null
  | bool (b : Bool) : IsLeaf (.bool b)
  | num (n : Number) : IsLeaf (.num n)
  | str (s : String) : IsLeaf (.str s)
  | date (instant : Int) : IsLeaf (.date instant)
  | bytes (data : List UInt8) : IsLeaf (.bytes data)
  | function (name : String) : IsLeaf (.function name)

/-- What holds of a value if it holds of its parts holds of every value. -/
@[elab_as_elim]
theorem induct {q : Value → Prop} (leaf : ∀ v, v.IsLeaf → q v)
    (list : ∀ items, (∀ item ∈ items, q item) → q (.list items))
    (map : ∀ members, (∀ entry ∈ members, q (entry : String × Value).2) → q (.map members))
    (loop : ∀ mark v, q v → q (.loop mark v)) (again : ∀ mark, q (.again mark)) (v : Value) :
    q v := by
  refine @Value.rec q (fun items => ∀ item ∈ items, q item)
    (fun members => ∀ entry ∈ members, q entry.2) (fun entry => q entry.2)
    (leaf _ .absent) (leaf _ .null) (fun b => leaf _ (.bool b)) (fun n => leaf _ (.num n))
    (fun s => leaf _ (.str s)) (fun items h => list items h) (fun members h => map members h)
    (fun instant => leaf _ (.date instant)) (fun data => leaf _ (.bytes data))
    (fun name => leaf _ (.function name)) (fun mark v h => loop mark v h) again
    (List.forall_mem_nil _) (fun item rest hitem hrest => List.forall_mem_cons.mpr ⟨hitem, hrest⟩)
    (List.forall_mem_nil _) (fun entry rest hentry hrest =>
      List.forall_mem_cons.mpr ⟨hentry, hrest⟩)
    (fun name part h => h) v

/-! ## Part by part -/

variable {mark other : Nat} {v whole : Value}

theorem itemMarks_eq (items : List Value) : itemMarks items = items.flatMap marks := by
  induction items with
  | nil => rfl
  | cons item rest ih => rw [itemMarks, ih, List.flatMap_cons]

theorem memberMarks_eq (ms : List (String × Value)) :
    memberMarks ms = ms.flatMap fun entry => entry.2.marks := by
  induction ms with
  | nil => rfl
  | cons entry rest ih => rw [memberMarks, ih, List.flatMap_cons]

theorem mem_marks_list_iff {items : List Value} :
    mark ∈ (list items).marks ↔ ∃ item ∈ items, mark ∈ item.marks := by
  rw [marks, itemMarks_eq, List.mem_flatMap]

theorem mem_marks_map_iff {ms : List (String × Value)} :
    mark ∈ (map ms).marks ↔ ∃ entry ∈ ms, mark ∈ entry.2.marks := by
  rw [marks, memberMarks_eq, List.mem_flatMap]

theorem mem_marks_loop_iff : other ∈ (loop mark v).marks ↔ other ∈ v.marks ∧ other ≠ mark := by
  rw [marks, List.mem_filter, decide_eq_true_iff]

@[simp] theorem marks_again : (again mark).marks = [mark] := by
  rw [marks]

theorem IsLeaf.marks_eq_nil (h : v.IsLeaf) : v.marks = [] := by
  cases h with
  | _ => rfl

/-- A collection that is closed does not lead back to its mark any more. -/
theorem mem_marks_closed_iff : other ∈ (v.closed mark).marks ↔ other ∈ v.marks ∧ other ≠ mark := by
  unfold closed
  split
  · exact mem_marks_loop_iff
  · rename_i hmark
    refine ⟨fun h => ⟨h, ?_⟩, fun h => h.1⟩
    rintro rfl
    exact hmark (List.contains_iff_mem.mpr h)

/-! ## Filling in -/

theorem fillItems_eq (items : List Value) :
    fillItems mark whole items = items.map (fill mark whole) := by
  induction items with
  | nil => rfl
  | cons item rest ih => rw [fillItems, ih, List.map_cons]

theorem fillMembers_eq (ms : List (String × Value)) :
    fillMembers mark whole ms = ms.map fun entry => (entry.1, fill mark whole entry.2) := by
  induction ms with
  | nil => rfl
  | cons entry rest ih => rw [fillMembers, ih, List.map_cons]

theorem fill_list (items : List Value) :
    fill mark whole (list items) = list (items.map (fill mark whole)) := by
  rw [fill, fillItems_eq]

theorem fill_map (ms : List (String × Value)) :
    fill mark whole (map ms) = map (ms.map fun entry => (entry.1, fill mark whole entry.2)) := by
  rw [fill, fillMembers_eq]

theorem fill_loop : fill mark whole (loop other v) =
    loop other (if other = mark then v else fill mark whole v) := by
  rw [fill]

theorem fill_again :
    fill mark whole (again other) = if other = mark then whole else again other := by
  rw [fill]

theorem IsLeaf.fill_eq (h : v.IsLeaf) : fill mark whole v = v := by
  cases h with
  | _ => rfl

/-- The names of members stay when a mark is filled in. -/
theorem names_fillMembers (ms : Members Value) :
    Members.names (fillMembers mark whole ms) = ms.names := by
  rw [fillMembers_eq, Members.names, Members.names, List.map_map]
  rfl

/-- Where a value does not lead back to a mark there is nothing to fill in. -/
theorem fill_of_not_mem (h : mark ∉ v.marks) : fill mark whole v = v := by
  induction v using induct with
  | leaf v hleaf => exact hleaf.fill_eq
  | again other =>
    rw [marks_again, List.mem_singleton, eq_comm] at h
    rw [fill_again, if_neg h]
  | list items ih =>
    have hitems : items.map (fill mark whole) = items.map id :=
      List.map_congr_left fun item hitem =>
        ih item hitem fun hmark => h (mem_marks_list_iff.mpr ⟨item, hitem, hmark⟩)
    rw [fill_list, hitems, List.map_id]
  | map ms ih =>
    have hms : (ms.map fun entry => (entry.1, fill mark whole entry.2)) = ms.map id :=
      List.map_congr_left fun entry hentry => Prod.ext rfl
        (ih entry hentry fun hmark => h (mem_marks_map_iff.mpr ⟨entry, hentry, hmark⟩))
    rw [fill_map, hms, List.map_id]
  | loop inner v ih =>
    rw [fill_loop]
    split
    · rfl
    · rename_i hne
      rw [ih fun hmark => h (mem_marks_loop_iff.mpr ⟨hmark, Ne.symm hne⟩)]

/-- The marks but the one that is filled in stay. -/
theorem mem_marks_fill (h : other ∈ v.marks) (hne : other ≠ mark) :
    other ∈ (fill mark whole v).marks := by
  induction v using induct with
  | leaf v hleaf => rwa [hleaf.fill_eq]
  | again kept =>
    rw [marks_again, List.mem_singleton] at h
    subst h
    rw [fill_again, if_neg hne, marks_again, List.mem_singleton]
  | list items ih =>
    obtain ⟨item, hitem, hmark⟩ := mem_marks_list_iff.mp h
    rw [fill_list, mem_marks_list_iff]
    exact ⟨_, List.mem_map_of_mem hitem, ih item hitem hmark⟩
  | map ms ih =>
    obtain ⟨entry, hentry, hmark⟩ := mem_marks_map_iff.mp h
    rw [fill_map, mem_marks_map_iff]
    exact ⟨_, List.mem_map_of_mem hentry, ih entry hentry hmark⟩
  | loop inner v ih =>
    rw [mem_marks_loop_iff] at h
    rw [fill_loop, mem_marks_loop_iff]
    split
    · exact h
    · exact ⟨ih h.1, h.2⟩

/-- Other marks come with what is filled in only. -/
theorem of_mem_marks_fill (h : other ∈ (fill mark whole v).marks) (hwhole : other ∉ whole.marks) :
    other ∈ v.marks := by
  induction v using induct with
  | leaf v hleaf => rwa [hleaf.fill_eq] at h
  | again kept =>
    rw [fill_again] at h
    split at h
    · exact absurd h hwhole
    · exact h
  | list items ih =>
    rw [fill_list, mem_marks_list_iff] at h
    obtain ⟨filled, hfilled, hmark⟩ := h
    obtain ⟨item, hitem, rfl⟩ := List.mem_map.mp hfilled
    exact mem_marks_list_iff.mpr ⟨item, hitem, ih item hitem hmark⟩
  | map ms ih =>
    rw [fill_map, mem_marks_map_iff] at h
    obtain ⟨filled, hfilled, hmark⟩ := h
    obtain ⟨entry, hentry, rfl⟩ := List.mem_map.mp hfilled
    exact mem_marks_map_iff.mpr ⟨entry, hentry, ih entry hentry hmark⟩
  | loop inner v ih =>
    rw [fill_loop, mem_marks_loop_iff] at h
    rw [mem_marks_loop_iff]
    split at h
    · exact h
    · exact ⟨ih h.1, h.2⟩

end LayeredSettings.Value
