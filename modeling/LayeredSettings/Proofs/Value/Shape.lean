import LayeredSettings.Proofs.Value.Marks

/-!
# The shape of values

Values of data formats are built from scalars by lists and maps, a map having every name once. Which
scalars there are is up to the format, and so is whether a collection may lead back to itself.

* `Value.BuiltFrom`, `Value.IsTree` — the values that are built from some scalars, and plain data;
* `BuiltFrom.of_map`, `BuiltFrom.of_list` — what collections are built from;
* `Value.IsPart`, `Value.IsNode` — the parts of YAML documents, and those that stand alone;
* `IsPart.fill`, `IsPart.closed`, `IsPart.unroll` — a loop is made and looked into.
-/

namespace LayeredSettings.Value

/-- The scalars of plain data. -/
inductive IsScalar : Value → Prop
  | null : IsScalar .null
  | bool (b : Bool) : IsScalar (.bool b)
  | num (n : Number) : IsScalar (.num n)
  | str (s : String) : IsScalar (.str s)

/-- The values that are built from scalars of some kind by lists, and by maps of distinct names. -/
inductive BuiltFrom (scalar : Value → Prop) : Value → Prop
  | scalar {v : Value} : scalar v → BuiltFrom scalar v
  | list {items : List Value} : (∀ item ∈ items, BuiltFrom scalar item) →
      BuiltFrom scalar (.list items)
  | map {members : Members Value} : members.names.Nodup →
      (∀ entry ∈ members, BuiltFrom scalar entry.2) → BuiltFrom scalar (.map members)

/-- Plain data: maps, lists, texts, numbers, truth values and null. -/
abbrev IsTree : Value → Prop := BuiltFrom IsScalar

/-- Plain data counts as a mapping exactly if it is a map. -/
theorem IsTree.isMapping_iff {v : Value} (h : v.IsTree) :
    v.isMapping = true ↔ ∃ members, v = .map members := by
  cases h with
  | scalar h => cases h with
    | _ => simp [isMapping]
  | list h => simp [isMapping]
  | map hnames h => simp [isMapping]

/-- What a map is built from, where no scalar is a map. -/
theorem BuiltFrom.of_map {scalar : Value → Prop} (hscalar : ∀ members, ¬scalar (.map members))
    {members : Members Value} (h : BuiltFrom scalar (.map members)) :
    members.names.Nodup ∧ ∀ entry ∈ members, BuiltFrom scalar entry.2 := by
  cases h with
  | scalar h => exact absurd h (hscalar members)
  | map hnames h => exact ⟨hnames, h⟩

/-- What a list is built from, where no scalar is a list. -/
theorem BuiltFrom.of_list {scalar : Value → Prop} (hscalar : ∀ items, ¬scalar (.list items))
    {items : List Value} (h : BuiltFrom scalar (.list items)) :
    ∀ item ∈ items, BuiltFrom scalar item := by
  cases h with
  | scalar h => exact absurd h (hscalar items)
  | list h => exact h

theorem not_isScalar_map (members : Members Value) : ¬IsScalar (.map members) := by
  intro h
  cases h

theorem IsTree.nodup_names {members : Members Value} (h : (Value.map members).IsTree) :
    members.names.Nodup :=
  (h.of_map not_isScalar_map).1

theorem IsTree.of_mem {members : Members Value} (h : (Value.map members).IsTree) {name : String}
    {part : Value} (hmem : (name, part) ∈ members) : part.IsTree :=
  (h.of_map not_isScalar_map).2 (name, part) hmem

theorem isTree_map_iff {members : Members Value} :
    (Value.map members).IsTree ↔ members.names.Nodup ∧ ∀ entry ∈ members, entry.2.IsTree :=
  ⟨fun h => h.of_map not_isScalar_map, fun h => .map h.1 h.2⟩

theorem isTree_list_iff {items : List Value} :
    (Value.list items).IsTree ↔ ∀ item ∈ items, item.IsTree := by
  constructor
  · intro h
    apply h.of_list
    intro items h
    cases h
  · exact .list

@[simp] theorem isTree_null : Value.null.IsTree := .scalar .null

@[simp] theorem isTree_bool (b : Bool) : (Value.bool b).IsTree := .scalar (.bool b)

@[simp] theorem isTree_str (s : String) : (Value.str s).IsTree := .scalar (.str s)

/-- Plain data leads back nowhere. -/
theorem IsTree.marks_eq_nil {v : Value} (h : v.IsTree) : v.marks = [] := by
  rw [List.eq_nil_iff_forall_not_mem]
  intro mark
  induction h with
  | scalar h => cases h with
    | _ => exact List.not_mem_nil
  | list _ ih =>
    rw [mem_marks_list_iff]
    rintro ⟨item, hitem, hmark⟩
    exact ih item hitem hmark
  | map _ _ ih =>
    rw [mem_marks_map_iff]
    rintro ⟨entry, hentry, hmark⟩
    exact ih entry hentry hmark

/-! ## Parts of YAML documents -/

/-- The scalars of YAML, which has two more kinds. -/
inductive IsNodeScalar : Value → Prop
  | plain {v : Value} : IsScalar v → IsNodeScalar v
  | date (instant : Int) : IsNodeScalar (.date instant)
  | bytes (data : List UInt8) : IsNodeScalar (.bytes data)

/-- Lists and maps. -/
inductive IsCollection : Value → Prop
  | list (items : List Value) : IsCollection (.list items)
  | map (members : Members Value) : IsCollection (.map members)

/-- What can stand in a YAML document within loops of some marks. It leads back to these and to
loops of its own, and every loop is led back to. -/
inductive IsPart : List Nat → Value → Prop
  | scalar {outer : List Nat} {v : Value} : IsNodeScalar v → IsPart outer v
  | list {outer : List Nat} {items : List Value} : (∀ item ∈ items, IsPart outer item) →
      IsPart outer (.list items)
  | map {outer : List Nat} {members : Members Value} : members.names.Nodup →
      (∀ entry ∈ members, IsPart outer entry.2) → IsPart outer (.map members)
  | loop {outer : List Nat} {mark : Nat} {v : Value} : IsCollection v → mark ∈ v.marks →
      IsPart (mark :: outer) v → IsPart outer (.loop mark v)
  | again {outer : List Nat} {mark : Nat} : mark ∈ outer → IsPart outer (.again mark)

/-- What a node of a YAML document can stand for. -/
abbrev IsNode : Value → Prop := IsPart []

variable {outer inner : List Nat} {mark : Nat} {v whole : Value}

theorem isPart_null : IsPart outer .null := .scalar (.plain .null)

theorem isPart_list_iff {items : List Value} :
    IsPart outer (.list items) ↔ ∀ item ∈ items, IsPart outer item := by
  constructor
  · intro h
    cases h with
    | scalar h => cases h with
      | plain h => cases h
    | list h => exact h
  · exact .list

theorem isPart_map_iff {members : Members Value} :
    IsPart outer (.map members) ↔
      members.names.Nodup ∧ ∀ entry ∈ members, IsPart outer entry.2 := by
  constructor
  · intro h
    cases h with
    | scalar h => cases h with
      | plain h => cases h
    | map hnames h => exact ⟨hnames, h⟩
  · intro h
    exact .map h.1 h.2

theorem IsNodeScalar.isLeaf (h : v.IsNodeScalar) : v.IsLeaf := by
  cases h with
  | plain h => cases h with
    | null => exact .null
    | bool b => exact .bool b
    | num n => exact .num n
    | str s => exact .str s
  | date instant => exact .date instant
  | bytes data => exact .bytes data

theorem IsCollection.fill (h : v.IsCollection) : (Value.fill mark whole v).IsCollection := by
  cases h with
  | list items =>
    rw [fill_list]
    exact .list _
  | map members =>
    rw [fill_map]
    exact .map _

/-- The loops that a part does not lead back to need not be there. -/
theorem IsPart.restrict (h : IsPart inner v)
    (houter : ∀ mark ∈ inner, mark ∈ v.marks → mark ∈ outer) : IsPart outer v := by
  induction h generalizing outer with
  | scalar h => exact .scalar h
  | list _ ih =>
    refine .list fun item hitem => ih item hitem fun mark hmark hback => houter mark hmark ?_
    exact mem_marks_list_iff.mpr ⟨item, hitem, hback⟩
  | map hnames _ ih =>
    refine .map hnames fun entry hentry => ih entry hentry fun mark hmark hback =>
      houter mark hmark ?_
    exact mem_marks_map_iff.mpr ⟨entry, hentry, hback⟩
  | @loop _ own _ hcollection hmark _ ih =>
    refine .loop hcollection hmark (ih fun other hother hback => ?_)
    by_cases hsame : other = own
    · exact List.mem_cons.mpr (.inl hsame)
    · have hfurther := (List.mem_cons.mp hother).resolve_left hsame
      exact List.mem_cons_of_mem _
        (houter other hfurther (mem_marks_loop_iff.mpr ⟨hback, hsame⟩))
  | again hmark =>
    refine .again (houter _ hmark ?_)
    rw [marks_again, List.mem_singleton]

theorem IsPart.mono (h : IsPart inner v) (houter : inner ⊆ outer) : IsPart outer v :=
  h.restrict fun _ hmark _ => houter hmark

/-- A part leads back to loops around it only. -/
theorem IsPart.mem_of_mem_marks (h : IsPart outer v) (hmark : mark ∈ v.marks) : mark ∈ outer := by
  induction h with
  | scalar h =>
    rw [h.isLeaf.marks_eq_nil] at hmark
    cases hmark
  | list _ ih =>
    obtain ⟨item, hitem, hmark⟩ := mem_marks_list_iff.mp hmark
    exact ih item hitem hmark
  | map _ _ ih =>
    obtain ⟨entry, hentry, hmark⟩ := mem_marks_map_iff.mp hmark
    exact ih entry hentry hmark
  | loop _ _ _ ih =>
    obtain ⟨hmark, hne⟩ := mem_marks_loop_iff.mp hmark
    exact (List.mem_cons.mp (ih hmark)).resolve_left hne
  | again h =>
    rw [marks_again, List.mem_singleton] at hmark
    rwa [hmark]

theorem IsNode.marks_eq_nil (h : v.IsNode) : v.marks = [] :=
  List.eq_nil_iff_forall_not_mem.mpr fun _ hmark => List.not_mem_nil (h.mem_of_mem_marks hmark)

/-- A loop within which a part stands may be put in its place wherever the part leads back to it. -/
theorem IsPart.fill (h : IsPart inner v) (hwhole : IsPart outer whole)
    (houter : inner ⊆ mark :: outer) : IsPart outer (Value.fill mark whole v) := by
  induction h generalizing outer with
  | scalar h =>
    rw [h.isLeaf.fill_eq]
    exact .scalar h
  | list _ ih =>
    rw [fill_list]
    refine .list fun item hitem => ?_
    obtain ⟨old, hold, rfl⟩ := List.mem_map.mp hitem
    exact ih old hold hwhole houter
  | map hnames _ ih =>
    rw [Value.fill]
    refine .map (by rwa [names_fillMembers]) fun entry hentry => ?_
    rw [fillMembers_eq] at hentry
    obtain ⟨old, hold, rfl⟩ := List.mem_map.mp hentry
    exact ih old hold hwhole houter
  | @loop inner other v hcollection hmark hv ih =>
    rw [fill_loop]
    split
    · -- the loop has the mark itself, so that nothing within it leads further out
      rename_i hsame
      subst hsame
      refine .loop hcollection hmark (hv.mono ?_)
      intro kept hkept
      obtain rfl | hkept := List.mem_cons.mp hkept
      · exact List.mem_cons_self
      · exact houter hkept
    · rename_i hne
      refine .loop hcollection.fill (mem_marks_fill hmark hne) (ih (hwhole.mono ?_) ?_)
      · exact List.subset_cons_self other outer
      · intro kept hkept
        obtain rfl | hkept := List.mem_cons.mp hkept
        · exact List.mem_cons_of_mem mark List.mem_cons_self
        · obtain rfl | hkept := List.mem_cons.mp (houter hkept)
          · exact List.mem_cons_self
          · exact List.mem_cons_of_mem _ (List.mem_cons_of_mem _ hkept)
  | again hmark =>
    rw [Value.fill]
    split
    · exact hwhole
    · rename_i hne
      exact .again ((List.mem_cons.mp (houter hmark)).resolve_left hne)

/-- A collection is closed where it ends. -/
theorem IsPart.closed (h : IsPart (mark :: outer) v) (hcollection : v.IsCollection) :
    IsPart outer (v.closed mark) := by
  unfold Value.closed
  split
  · rename_i hmark
    exact .loop hcollection (List.contains_iff_mem.mp hmark) h
  · rename_i hmark
    refine h.restrict fun other hother hback => ?_
    obtain rfl | hother := List.mem_cons.mp hother
    · exact absurd (List.contains_iff_mem.mpr hback) hmark
    · exact hother

/-- What is looked into stands where it stood. -/
theorem IsPart.unroll (h : IsPart outer v) : IsPart outer v.unroll := by
  cases v with
  | loop mark v =>
    have hloop := h
    cases h with
    | scalar h => cases h with
      | plain h => cases h
    | loop _ _ hv => exact hv.fill hloop (List.Subset.refl _)
  | _ => exact h

end LayeredSettings.Value
