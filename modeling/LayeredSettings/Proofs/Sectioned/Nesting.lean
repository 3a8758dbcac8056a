import LayeredSettings.Proofs.Ini.Address
import LayeredSettings.Proofs.Sectioned.Spots

/-!
# Nesting blocks

The sections of blocks are moved below each other as their names say. What every path leads to
afterwards is what it leads to once the blocks were put in place, unless a block has to go through
an option that is null: then there is no tree.

* `StuckAfter` — a block that has to go through a null;
* `Placed` — what moving one section after the other preserves;
* `nest_eq_error`, `nest_eq_ok` — the tree of blocks.
-/

namespace LayeredSettings.Sectioned

open Ini (Node Spot Address Moving)

/-- Whether a null is in the way of a block that comes after others. -/
def Blocked (placed : List Block) (b : Block) : Prop :=
  ∃ part, part <+: b.path.dropLast ∧ part ≠ [] ∧ spotOf placed part = some (.leaf .null)

/-- Whether a null is in the way of some of the blocks that come after others. -/
def StuckAfter (placed : List Block) : List Block → Prop
  | [] => False
  | b :: rest => Blocked placed b ∨ StuckAfter (placed ++ [b]) rest

/-- Whether a block has to go through an option that is null, which no block between has
replaced by a section. -/
def Stuck (blocks : List Block) : Prop :=
  ∃ before c between b after, placing blocks = before ++ c :: (between ++ b :: after) ∧
    ∃ e ∈ c.entries, e.text = "null" ∧ c.path ++ [e.name] <+: b.path.dropLast ∧
      ∀ w ∈ between, ¬ w.path <+: c.path ++ [e.name]

/-! ## Blocks in the way of others -/

theorem stuckAfter_append_iff {placed first second : List Block}
    (h : ∀ before b after, first = before ++ b :: after → ¬ Blocked (placed ++ before) b) :
    StuckAfter placed (first ++ second) ↔ StuckAfter (placed ++ first) second := by
  induction first generalizing placed with
  | nil => simp
  | cons b rest ih =>
    have hfree : ¬ Blocked placed b := by simpa using h [] b rest rfl
    have hrest : StuckAfter (placed ++ [b]) (rest ++ second) ↔
        StuckAfter (placed ++ [b] ++ rest) second := by
      apply ih
      intro before c after heq
      simpa using h (b :: before) c after (by simp [heq])
    rw [List.cons_append, StuckAfter, hrest]
    simp [hfree]

theorem stuckAfter_iff {placed pending : List Block} :
    StuckAfter placed pending ↔
      ∃ before b after, pending = before ++ b :: after ∧ Blocked (placed ++ before) b := by
  induction pending generalizing placed with
  | nil => simp [StuckAfter]
  | cons b rest ih =>
    rw [StuckAfter, ih]
    constructor
    · rintro (hblocked | ⟨before, c, after, rfl, hblocked⟩)
      · exact ⟨[], b, rest, rfl, by simpa using hblocked⟩
      · exact ⟨b :: before, c, after, rfl, by simpa using hblocked⟩
    · rintro ⟨before, c, after, heq, hblocked⟩
      cases before with
      | nil =>
        obtain ⟨rfl, rfl⟩ := List.cons.inj heq
        exact .inl (by simpa using hblocked)
      | cons first before =>
        obtain ⟨rfl, rfl⟩ := List.cons.inj heq
        exact .inr ⟨before, c, after, rfl, by simpa using hblocked⟩

/-- Nothing is in the way of a block without dots. -/
theorem not_blocked_of_isDotted_eq_false {b : Block} (h : isDotted b.name = false)
    (placed : List Block) : ¬ Blocked placed b := by
  rintro ⟨part, hpart, hne, -⟩
  rw [Block.path_of_isDotted_eq_false h] at hpart
  exact hne (List.prefix_nil.mp hpart)

theorem blocked_iff {placed : List Block} (h : ∀ c ∈ placed, c.Plain) {b : Block} :
    Blocked placed b ↔
      ∃ before c between, placed = before ++ c :: between ∧
        ∃ e ∈ c.entries, e.text = "null" ∧ c.path ++ [e.name] <+: b.path.dropLast ∧
          ∀ w ∈ between, ¬ w.Meets (c.path ++ [e.name]) := by
  constructor
  · rintro ⟨part, hpart, -, hspot⟩
    obtain ⟨c, howner, e, he, rfl, hnull⟩ := (spotOf_eq_leaf_iff h).mp hspot
    obtain ⟨-, before, between, rfl, hbetween⟩ := owner?_eq_some_iff.mp howner
    exact ⟨before, c, between, rfl, e, he, e.node_eq_null_iff.mp hnull.symm, hpart, hbetween⟩
  · rintro ⟨before, c, between, rfl, e, he, hnull, hpart, hbetween⟩
    refine ⟨c.path ++ [e.name], hpart, by simp, (spotOf_eq_leaf_iff h).mpr ?_⟩
    refine ⟨c, owner?_eq_some_iff.mpr ⟨.inl (List.prefix_append _ _), ?_⟩, e, he, rfl, ?_⟩
    · exact ⟨before, between, rfl, hbetween⟩
    · exact (e.node_eq_null_iff.mpr hnull).symm

/-- A path that is on the way to a block and is not the block's own is on the way to what the block
is in. -/
theorem Block.prefix_dropLast {b : Block} {q : List String} (h : q <+: b.path)
    (hne : ¬ b.path <+: q) : q <+: b.path.dropLast := by
  obtain ⟨path, last, hpath⟩ := (List.eq_nil_or_concat _).resolve_left b.path_ne_nil
  rw [List.concat_eq_append] at hpath
  rw [hpath] at h hne ⊢
  rw [List.dropLast_concat]
  rcases List.prefix_concat_iff.mp h with rfl | h
  · exact absurd List.prefix_rfl hne
  · exact h

/-- It takes no account of how blocks are put in place to see that one is stuck. -/
theorem stuck_iff {blocks : List Block} (h : PlainBlocks blocks) :
    Stuck blocks ↔ StuckAfter (blocks.filter fun b => !isDotted b.name)
      (blocks.filter fun b => isDotted b.name) := by
  have hplain := h.plain_placing
  have hfree : ∀ before b after, (blocks.filter fun b => !isDotted b.name) = before ++ b :: after →
      ¬ Blocked ([] ++ before) b := by
    intro before b after heq
    have hmem : b ∈ blocks.filter fun b => !isDotted b.name := by simp [heq]
    exact not_blocked_of_isDotted_eq_false (by simpa using (List.mem_filter.mp hmem).2) _
  rw [← List.nil_append (blocks.filter fun b => !isDotted b.name), ← stuckAfter_append_iff hfree,
    ← placing, stuckAfter_iff]
  constructor
  · rintro ⟨before, c, between, b, after, hplacing, e, he, hnull, hpart, hbetween⟩
    -- the first block that has to go through the null is stuck
    obtain ⟨w, hw⟩ : ∃ w, (between ++ [b]).find?
        (fun w => c.path ++ [e.name] <+: w.path.dropLast) = some w := by
      rw [← Option.isSome_iff_exists, List.find?_isSome]
      exact ⟨b, by simp, by simpa using hpart⟩
    obtain ⟨hwPart, first, last, heq, hfirst⟩ := List.find?_eq_some_iff_append.mp hw
    have hplacing : placing blocks = (before ++ c :: first) ++ w :: (last ++ after) := by
      have hassoc : between ++ b :: after = (between ++ [b]) ++ after := by simp
      rw [hplacing, hassoc, heq]
      simp
    have hplaced : ∀ d ∈ [] ++ (before ++ c :: first), d.Plain :=
      fun d hd => hplain d (hplacing ▸ List.mem_append_left _ hd)
    refine ⟨before ++ c :: first, w, last ++ after, hplacing, (blocked_iff hplaced).mpr ?_⟩
    refine ⟨before, c, first, rfl, e, he, hnull, by simpa using hwPart, ?_⟩
    intro v hv hmeets
    have hvPart : ¬ c.path ++ [e.name] <+: v.path.dropLast := by simpa using hfirst v hv
    have hmem : v ∈ between ++ [b] := by
      rw [heq]
      exact List.mem_append_left _ hv
    rcases List.mem_append.mp hmem with hmem | hmem
    · rcases hmeets with hmeets | hmeets
      · exact hbetween v hmem hmeets
      · exact hvPart (Block.prefix_dropLast hmeets (hbetween v hmem))
    · rw [List.mem_singleton.mp hmem] at hvPart
      exact hvPart hpart
  · rintro ⟨placed, b, after, hplacing, hblocked⟩
    have hplaced : ∀ c ∈ placed, c.Plain := fun c hc => hplain c (by simp [hplacing, hc])
    obtain ⟨before, c, between, rfl, e, he, hnull, hpart, hbetween⟩ :=
      (blocked_iff hplaced).mp hblocked
    refine ⟨before, c, between, b, after, by simpa using hplacing, e, he, hnull, hpart, ?_⟩
    exact fun w hw hpre => hbetween w hw (.inl hpre)

/-! ## Moving one section -/

theorem move_of_of?_eq_none {m : Moving} {name : String} (h : Address.of? name = none) :
    m.move name = .ok m := by
  unfold Moving.move
  rw [h]
  cases m.top.get? name with
  | _ => rfl

/-- The section of a name with an address is put at the address. -/
theorem move_eq_ok {m : Moving} {name : String} {members after : Members Node} {a : Address}
    (hget : m.top.get? name = some (.object false members)) (ha : Address.of? name = some a)
    (hcurrent : m.current a.path = some a.path)
    (hplace : (Node.object false m.top).place a.path a.name (.object false members) =
      .ok (.object false after)) :
    ∃ homes, m.move name = .ok { top := after, homes, left := name :: m.left } ∧
      ∀ entry ∈ homes, entry.1 = name ∨ ∃ old ∈ m.homes, old.1 = entry.1 := by
  simp only [Moving.move, hget, ha, Node.isMovable, hcurrent, hplace]
  refine ⟨_, rfl, ?_⟩
  intro entry hentry
  rcases List.mem_cons.mp hentry with rfl | hentry
  · exact .inl rfl
  · obtain ⟨old, hold, rfl⟩ := List.mem_map.mp (List.mem_filter.mp hentry).1
    exact .inr ⟨old, hold, rfl⟩

theorem move_eq_error {m : Moving} {name : String} {members : Members Node} {a : Address}
    {fault : StructureFault} (hget : m.top.get? name = some (.object false members))
    (ha : Address.of? name = some a) (hcurrent : m.current a.path = some a.path)
    (hplace : (Node.object false m.top).place a.path a.name (.object false members) =
      .error fault) :
    m.move name = .error fault := by
  simp only [Moving.move, hget, ha, Node.isMovable, hcurrent, hplace]
  rfl

/-- What is found once the section of a block was put at its address, is what is found once the
block was put in place. -/
theorem Block.spot?_place {b : Block} {path : List String} {name : String}
    (hpath : path ++ [name] = b.path) (q : List String) (old : Option Spot) :
    (if q <+: path then some .branch
      else if b.path <+: q then b.node.spot? (q.drop b.path.length) else old) =
      if b.Meets q then b.spot? q else old := by
  by_cases hbelow : q <+: b.path
  · rw [if_pos (show b.Meets q from .inr hbelow), spot?, if_pos hbelow]
    rw [← hpath, List.prefix_concat_iff] at hbelow
    rcases hbelow with hq | hbelow
    · -- the path leads to the block itself
      have hnot : ¬ q <+: path := by
        intro hpre
        have hlength := hpre.length_le
        rw [hq, List.length_append, List.length_singleton] at hlength
        omega
      rw [hpath] at hq
      rw [if_neg hnot, hq, if_pos List.prefix_rfl, List.drop_length]
      rfl
    · rw [if_pos hbelow]
  · have hnot : ¬ q <+: path := by
      intro hpre
      refine hbelow (hpre.trans ?_)
      rw [← hpath]
      exact List.prefix_append path [name]
    rw [if_neg hnot]
    by_cases habove : b.path <+: q
    · rw [if_pos habove, if_pos (show b.Meets q from .inl habove), spot?, if_neg hbelow,
        if_pos habove]
    · have hmeets : ¬ b.Meets q := not_or.mpr ⟨habove, hbelow⟩
      rw [if_neg habove, if_neg hmeets]

/-! ## The invariant -/

/-- A tree some of whose blocks are in place. The sections that move later are still under their
names. -/
structure Placed (top : Members Node) (placed : List Block) (m : Moving) : Prop where
  regular : (Node.object false m.top).Regular
  dotted_kept : ∀ name, isDotted name = true → m.top.get? name = top.get? name
  spots : ∀ name rest, isDotted name = false →
    (Node.object false m.top).spot? (name :: rest) = spotOf placed (name :: rest)
  homes_dotted : ∀ entry ∈ m.homes, isDotted entry.1 = true
  mem_left : ∀ name, name ∈ m.left ↔ isDotted name = true ∧ ∃ b ∈ placed, b.name = name

/-- Where a path leads that no section was moved away from. -/
theorem Placed.current_eq {top : Members Node} {placed : List Block} {m : Moving}
    (h : Placed top placed m) {path : List String} (hpath : ∀ part ∈ path, isDotted part = false) :
    m.current path = some path := by
  cases path with
  | nil => rfl
  | cons first rest =>
    have hlookup : m.homes.lookup first = none := by
      rw [List.lookup_eq_none_iff]
      intro entry hentry
      have hdotted := h.homes_dotted entry hentry
      rw [bne_iff_ne]
      rintro rfl
      rw [hpath entry.1 List.mem_cons_self] at hdotted
      cases hdotted
    simp only [Moving.current, hlookup]

/-- The address of a block. -/
theorem Block.exists_address {b : Block} (h : b.Plain) (hdotted : isDotted b.name = true) :
    ∃ a, Address.of? b.name = some a ∧ a.path ++ [a.name] = b.path :=
  Address.exists_of?_eq_some (fun hback => (h.name_chars _ hback).2.1 rfl)
    (isDotted_eq_true_iff.mp hdotted) fun part hpart => (h.path_parts part hpart).2

/-- A null on the way stops a block. -/
theorem Placed.move_error {top : Members Node} {placed : List Block} {m : Moving}
    (h : Placed top placed m) {b : Block} (hplain : b.Plain) (hdotted : isDotted b.name = true)
    (hget : top.get? b.name = some b.node) (hblocked : Blocked placed b) :
    m.move b.name = .error .memberOfNull := by
  obtain ⟨a, ha, hpath⟩ := b.exists_address hplain hdotted
  obtain ⟨part, hpart, hne, hnull⟩ := hblocked
  rw [← hpath, List.dropLast_concat] at hpart
  have hundotted : ∀ part ∈ a.path, isDotted part = false := by
    intro part hmem
    exact Block.isDotted_of_mem_path (b := b) (hpath ▸ List.mem_append_left _ hmem)
  have hat : (Node.object false m.top).at? part = some .null := by
    obtain ⟨first, rest, rfl⟩ := List.exists_cons_of_ne_nil hne
    rw [Node.at?_eq_null_iff,
      h.spots first rest (hundotted first (hpart.subset List.mem_cons_self))]
    exact hnull
  rw [← h.dotted_kept b.name hdotted] at hget
  exact move_eq_error hget ha (h.current_eq hundotted)
    (Node.place_eq_error h.regular hpart hne hat _ _)

/-- Moving a section puts one more block in place. -/
theorem Placed.move_ok {top : Members Node} {placed : List Block} {m : Moving}
    (h : Placed top placed m) {b : Block} (hplain : b.Plain) (hdotted : isDotted b.name = true)
    (hget : top.get? b.name = some b.node) (hfree : ¬ Blocked placed b) :
    ∃ after, m.move b.name = .ok after ∧ Placed top (placed ++ [b]) after := by
  obtain ⟨a, ha, hpath⟩ := b.exists_address hplain hdotted
  have hundotted : ∀ part ∈ b.path, isDotted part = false := fun _ => Block.isDotted_of_mem_path
  have hnotNull : ∀ part, part <+: a.path → part ≠ [] →
      (Node.object false m.top).at? part ≠ some .null := by
    intro part hpart hne hat
    obtain ⟨first, rest, rfl⟩ := List.exists_cons_of_ne_nil hne
    have hfirst : isDotted first = false := by
      refine hundotted first ?_
      rw [← hpath]
      exact List.mem_append_left _ (hpart.subset List.mem_cons_self)
    refine hfree ⟨first :: rest, ?_, hne, ?_⟩
    · rwa [← hpath, List.dropLast_concat]
    · rwa [← h.spots first rest hfirst, ← Node.at?_eq_null_iff]
  obtain ⟨after, hplace, hregular, hkept, hspots⟩ :=
    Node.place_eq_ok h.regular a.name b.node_regular hnotNull
  have hlength : a.path.length + 1 = b.path.length := by simp [← hpath]
  have hpathUndotted : ∀ part ∈ a.path, isDotted part = false :=
    fun part hpart => hundotted part (hpath ▸ List.mem_append_left _ hpart)
  rw [← h.dotted_kept b.name hdotted] at hget
  obtain ⟨homes, hmove, hhomes⟩ :=
    move_eq_ok hget ha (h.current_eq hpathUndotted) hplace
  refine ⟨_, hmove, hregular, ?_, ?_, ?_, ?_⟩
  · -- a dotted name is no part of a path, so that nothing was put under it
    intro name hname
    show Members.get? after name = top.get? name
    rw [hkept name, h.dotted_kept name hname]
    intro hhead
    rw [hpath] at hhead
    rw [hundotted name (List.mem_of_head? hhead)] at hname
    cases hname
  · intro name rest hname
    show (Node.object false after).spot? (name :: rest) = _
    rw [hspots, spotOf_concat, hpath, hlength, h.spots name rest hname]
    exact Block.spot?_place hpath (name :: rest) _
  · intro entry hentry
    rcases hhomes entry hentry with heq | ⟨old, hold, heq⟩
    · rw [heq]
      exact hdotted
    · rw [← heq]
      exact h.homes_dotted old hold
  · intro name
    show name ∈ b.name :: m.left ↔ _
    rw [List.mem_cons, h.mem_left]
    constructor
    · rintro (rfl | ⟨hname, c, hc, rfl⟩)
      · exact ⟨hdotted, b, by simp, rfl⟩
      · exact ⟨hname, c, by simp [hc], rfl⟩
    · rintro ⟨hname, c, hc, rfl⟩
      rcases List.mem_append.mp hc with hc | hc
      · exact .inr ⟨hname, c, hc, rfl⟩
      · rw [List.mem_singleton.mp hc]
        exact .inl rfl

/-! ## Moving all sections -/

/-- Moving sections one after the other puts their blocks in place, up to one that a null is in the
way of. -/
theorem foldlM_move {top : Members Node} {names : List String} {placed pending : List Block}
    {m : Moving} (h : Placed top placed m)
    (hnames : names.filter isDotted = pending.map (·.name))
    (hpending : ∀ b ∈ pending,
      b.Plain ∧ isDotted b.name = true ∧ top.get? b.name = some b.node) :
    (StuckAfter placed pending → names.foldlM Moving.move m = .error .memberOfNull) ∧
    (¬ StuckAfter placed pending →
      ∃ after, names.foldlM Moving.move m = .ok after ∧ Placed top (placed ++ pending) after) := by
  -- the names are all that were there at first; the pending blocks are those with dots among them
  induction names generalizing m placed pending with
  | nil =>
    have hnil : pending = [] := by simpa using hnames.symm
    subst hnil
    refine ⟨False.elim, fun _ => ⟨m, rfl, ?_⟩⟩
    rwa [List.append_nil]
  | cons name rest ih =>
    rw [List.foldlM_cons]
    cases hname : isDotted name with
    | false =>
      rw [List.filter_cons, hname] at hnames
      rw [move_of_of?_eq_none (Address.of?_eq_none (isDotted_eq_false_iff.mp hname))]
      exact ih h hnames hpending
    | true =>
      rw [List.filter_cons, hname, if_pos rfl] at hnames
      cases pending with
      | nil => cases hnames
      | cons b later =>
        obtain ⟨rfl, hlater⟩ := List.cons.inj hnames
        obtain ⟨hplain, hdotted, hget⟩ := hpending b List.mem_cons_self
        by_cases hblocked : Blocked placed b
        · rw [h.move_error hplain hdotted hget hblocked]
          exact ⟨fun _ => rfl, fun hstuck => absurd (.inl hblocked) hstuck⟩
        · obtain ⟨next, hmove, hnext⟩ := h.move_ok hplain hdotted hget hblocked
          obtain ⟨herror, hok⟩ :=
            ih hnext hlater fun c hc => hpending c (List.mem_cons_of_mem b hc)
          rw [hmove]
          constructor
          · intro hstuck
            exact herror (hstuck.resolve_left hblocked)
          · intro hstuck
            obtain ⟨after, hafter, hplaced⟩ := hok fun hlater => hstuck (.inr hlater)
            refine ⟨after, hafter, ?_⟩
            rwa [List.append_assoc] at hplaced

/-! ## The tree -/

/-- The sections of blocks before any has moved. -/
def flatTree (blocks : List Block) : Members Node :=
  Members.ofList (blocks.map fun b => (b.name, b.node))

theorem PlainBlocks.nodup_names {blocks : List Block} (h : PlainBlocks blocks) :
    (Members.names (blocks.map fun b => (b.name, b.node))).Nodup := by
  rw [Members.names, List.map_map]
  exact h.names_distinct

theorem get?_flatTree {blocks : List Block} (h : PlainBlocks blocks) {b : Block}
    (hb : b ∈ blocks) : (flatTree blocks).get? b.name = some b.node := by
  rw [flatTree, Members.get?_ofList_eq_some_iff (Members.part_unique h.nodup_names)]
  exact List.mem_map.mpr ⟨b, hb, rfl⟩

theorem get?_flatTree_eq_none {blocks : List Block} {name : String}
    (hname : ∀ b ∈ blocks, b.name ≠ name) : (flatTree blocks).get? name = none := by
  apply Members.get?_ofList_eq_none
  intro entry hentry
  obtain ⟨b, hb, rfl⟩ := List.mem_map.mp hentry
  exact hname b hb

theorem arrayIndex?_of_isDotted {name : String} (h : isDotted name = true) :
    Members.arrayIndex? name = none := by
  -- a dot is no digit
  have hdigit : name.toList.all (fun c => '0' ≤ c && c ≤ '9') = false := by
    rw [List.all_eq_false]
    exact ⟨'.', isDotted_eq_true_iff.mp h, by decide⟩
  simp [Members.arrayIndex?, hdigit]

/-- Before any section has moved, the blocks without dots are in place. -/
theorem placed_flatTree {blocks : List Block} (h : PlainBlocks blocks) :
    Placed (flatTree blocks) (blocks.filter fun b => !isDotted b.name)
      { top := flatTree blocks, homes := [], left := [] } := by
  refine ⟨?_, fun _ _ => rfl, ?_, fun _ hentry => absurd hentry List.not_mem_nil, ?_⟩
  · refine .object (Members.nodup_names_ofList _) ?_
    refine Members.forall_mem_setAll ?_ fun _ hentry => absurd hentry List.not_mem_nil
    intro entry hentry
    obtain ⟨b, -, rfl⟩ := List.mem_map.mp hentry
    exact b.node_regular
  · intro name rest hname
    rw [Node.spot?_object_cons, spotOf]
    have hmeets {c : Block} (hc : c ∈ blocks.filter fun b => !isDotted b.name) :
        c.path = [c.name] ∧ (c.Meets (name :: rest) → c.name = name) := by
      have hcName : isDotted c.name = false := by simpa using (List.mem_filter.mp hc).2
      have hpath := Block.path_of_isDotted_eq_false hcName
      refine ⟨hpath, ?_⟩
      rw [Block.Meets, hpath]
      rintro (hmeets | hmeets)
      · exact (List.cons_prefix_cons.mp hmeets).1
      · exact (List.cons_prefix_cons.mp hmeets).1.symm
    cases howner : owner? (blocks.filter fun b => !isDotted b.name) (name :: rest) with
    | none =>
      rw [get?_flatTree_eq_none]
      · rfl
      · rintro c hc rfl
        have hmem : c ∈ blocks.filter fun b => !isDotted b.name := by simp [hc, hname]
        refine owner?_eq_none_iff.mp howner c hmem (.inl ?_)
        rw [(hmeets hmem).1]
        simp
    | some b =>
      obtain ⟨hb, hbMeets⟩ := mem_of_owner? howner
      obtain ⟨hpath, hbName⟩ := hmeets hb
      obtain rfl := hbName hbMeets
      rw [get?_flatTree h (List.mem_filter.mp hb).1, Option.bind_some, Option.bind_some]
      have htop : [] ++ [b.name] = b.path := by rw [hpath, List.nil_append]
      have hplace := Block.spot?_place htop (b.name :: rest) none
      rw [if_pos hbMeets, hpath] at hplace
      rw [← hplace]
      simp
  · intro name
    show name ∈ [] ↔ _
    refine iff_of_false List.not_mem_nil ?_
    rintro ⟨hdotted, b, hb, rfl⟩
    rw [List.mem_filter, hdotted] at hb
    cases hb.2

/-- Moving the sections of blocks, from the first to the last. -/
theorem foldlM_move_flatTree {blocks : List Block} (h : PlainBlocks blocks) :
    (Stuck blocks → (flatTree blocks).names.foldlM Moving.move
      { top := flatTree blocks, homes := [], left := [] } = .error .memberOfNull) ∧
    (¬ Stuck blocks → ∃ after, (flatTree blocks).names.foldlM Moving.move
      { top := flatTree blocks, homes := [], left := [] } = .ok after ∧
        Placed (flatTree blocks) (placing blocks) after) := by
  rw [stuck_iff h]
  refine foldlM_move (placed_flatTree h) ?_ ?_
  · rw [flatTree, Members.filter_names_ofList (fun _ => arrayIndex?_of_isDotted) h.nodup_names,
      List.map_map, List.filter_map]
    rfl
  · intro b hb
    obtain ⟨hmem, hdotted⟩ := List.mem_filter.mp hb
    exact ⟨h.plain b hmem, hdotted, get?_flatTree h hmem⟩

/-- A block that has to go through a null keeps a tree from being made. -/
theorem nest_eq_error {blocks : List Block} (h : PlainBlocks blocks) (hstuck : Stuck blocks) :
    Ini.nest (flatTree blocks) = .error .memberOfNull := by
  rw [Ini.nest, (foldlM_move_flatTree h).1 hstuck]
  rfl

/-- The tree of blocks, by what every path leads to. -/
theorem nest_eq_ok {blocks : List Block} (h : PlainBlocks blocks) (hstuck : ¬ Stuck blocks) :
    ∃ tree : Members Node, Ini.nest (flatTree blocks) = .ok tree ∧
      (Node.object false tree).Regular ∧
      ∀ name rest, (Node.object false tree).spot? (name :: rest) =
        spotOf (placing blocks) (name :: rest) := by
  obtain ⟨after, hmove, hplaced⟩ := (foldlM_move_flatTree h).2 hstuck
  refine ⟨after.top.filter fun entry => !after.left.contains entry.1, ?_, ?_, ?_⟩
  · rw [Ini.nest, hmove]
    rfl
  · cases hplaced.regular with
    | object hnodup hall =>
      refine .object (Members.nodup_names_filter hnodup _) ?_
      exact fun entry hentry => hall entry (List.mem_filter.mp hentry).1
  · intro name rest
    rw [Node.spot?_object_cons,
      Members.get?_filter after.top (fun name => !after.left.contains name) name]
    cases hname : isDotted name with
    | false =>
      have hleft : name ∉ after.left := by
        rw [hplaced.mem_left, hname]
        simp
      rw [if_pos (by simpa using hleft), ← hplaced.spots name rest hname, Node.spot?_object_cons]
    | true =>
      -- a name that was moved from is gone, and no block was put in place under it
      have hspot : spotOf (placing blocks) (name :: rest) = none := by
        rw [spotOf, owner?_eq_none_iff.mpr]
        · rfl
        · rintro b - hmeets
          have hmem : name ∈ b.path := by
            rcases hmeets with hmeets | hmeets
            · obtain ⟨first, path, hpath⟩ := List.exists_cons_of_ne_nil b.path_ne_nil
              rw [hpath] at hmeets ⊢
              rw [(List.cons_prefix_cons.mp hmeets).1]
              exact List.mem_cons_self
            · exact hmeets.subset List.mem_cons_self
          rw [Block.isDotted_of_mem_path hmem] at hname
          cases hname
      rw [hspot]
      split_ifs with hleft
      · have hnone : ∀ b ∈ blocks, b.name ≠ name := by
          rintro b hb rfl
          have hmem : b.name ∈ after.left :=
            (hplaced.mem_left b.name).mpr ⟨hname, b, mem_placing.mpr hb, rfl⟩
          simp [hmem] at hleft
        rw [hplaced.dotted_kept name hname, get?_flatTree_eq_none hnone]
        rfl
      · rfl

end LayeredSettings.Sectioned
