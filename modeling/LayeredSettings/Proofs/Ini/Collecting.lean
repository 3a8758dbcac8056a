import LayeredSettings.Proofs.Ini.Orderly
import LayeredSettings.Proofs.Ini.Spot
import LayeredSettings.Proofs.Text.Lines
import LayeredSettings.Proofs.Text.Trim
import Mathlib.Data.List.Forall2
import Mathlib.Data.List.TakeWhile

/-!
# Options that are given several values

An option that is given one value after the other has the last one, until a name in brackets makes
a list of it; from then on it takes every value as an item, with brackets or without. Its text is
that of the last value, or the texts of the items with commas between them.

* `Members.arrayIndex?_toString`, `Node.push_ofItems` — an item is added under the next index;
* `Given`, `collect`, `counted` — values one after the other, and which of them count;
* `Node.optionText_ofItems` — the text of a list of texts;
* `exists_collect` — what an option is after some values, and its text.
-/

namespace LayeredSettings.Members

/-! ## Names of items -/

theorem toList_toString (n : Nat) : (toString n).toList = Nat.toDigits 10 n := by
  simp [toString, Nat.repr]

/-- No number but zero begins with a zero. -/
theorem head?_toDigits {n : Nat} (hn : 0 < n) : (Nat.toDigits 10 n).head? ≠ some '0' := by
  induction n using Nat.strongRecOn with
  | ind n ih =>
    rw [Nat.toDigits_eq_if (by decide)]
    split
    · rename_i hlt
      have hdigits : ∀ d < 10, 0 < d → [d.digitChar].head? ≠ some '0' := by decide
      exact hdigits n hlt hn
    · have hrest := ih (n / 10) (by omega) (by omega)
      rwa [List.head?_append_of_ne_nil _ Nat.toDigits_ne_nil]

/-- A number is the array index that it spells. -/
theorem arrayIndex?_toString {n : Nat} (hn : n < 4294967295) :
    arrayIndex? (toString n) = some n := by
  have hne : (Nat.toDigits 10 n).isEmpty = false := by
    simp [List.isEmpty_eq_false_iff, Nat.toDigits_ne_nil]
  have hshort : ¬ 10 < (Nat.toDigits 10 n).length := by
    rw [Nat.not_lt, Nat.length_toDigits_le_iff (by decide) (by decide)]
    omega
  have hdigits : (Nat.toDigits 10 n).all (fun c => '0' ≤ c && c ≤ '9') = true := by
    rw [List.all_eq_true]
    intro c hc
    have hdigit := Nat.isDigit_of_mem_toDigits (b := 10) (by decide) (by decide) hc
    simpa [Char.isDigit, Char.le_def] using hdigit
  have hzero : ((Nat.toDigits 10 n).head? = some '0' &&
      decide ((Nat.toDigits 10 n).length > 1)) = false := by
    by_cases hpos : 0 < n
    · simp [head?_toDigits hpos]
    · obtain rfl : n = 0 := by omega
      rfl
  have hvalue : (Nat.toDigits 10 n).foldl (fun n c => 10 * n + (c.toNat - '0'.toNat)) 0 = n := by
    rw [← Nat.ofDigitChars_eq_foldl, Nat.ofDigitChars_ten_toDigits]
  simp only [arrayIndex?, toList_toString, hvalue]
  simp [hne, hshort, hdigits, hzero, hn]

end LayeredSettings.Members

namespace LayeredSettings.Ini

namespace Node

theorem isScalar_ofText (s : String) : (ofText s).isScalar = true := by
  rw [ofText_eq]
  split_ifs
  · rfl
  · rfl
  · rfl
  · rfl

/-! ## Lists -/

/-- The members of a list of given items. -/
def itemMembers (items : List Node) : Members Node :=
  items.zipIdx.map fun (item, i) => (toString i, item)

theorem mem_itemMembers {items : List Node} {entry : String × Node}
    (h : entry ∈ itemMembers items) : ∃ i < items.length, entry.1 = toString i := by
  obtain ⟨⟨item, i⟩, hmem, rfl⟩ := List.mem_map.mp h
  obtain ⟨hi, -⟩ := List.mem_zipIdx' hmem
  exact ⟨i, hi, rfl⟩

/-- A further item comes last. -/
theorem push_ofItems {items : List Node} (hshort : items.length < 4294967295) (item : Node) :
    push items.length (itemMembers items) item = ofItems (items ++ [item]) := by
  have hindices : ∀ entry ∈ itemMembers items,
      ∃ i, Members.arrayIndex? entry.1 = some i ∧ i < items.length := by
    intro entry hentry
    obtain ⟨i, hi, hname⟩ := mem_itemMembers hentry
    exact ⟨i, by rw [hname, Members.arrayIndex?_toString (by omega)], hi⟩
  have hnew : ¬ Members.has (itemMembers items) (toString items.length) = true := by
    intro hhas
    obtain ⟨entry, hentry, hname⟩ := List.any_eq_true.mp hhas
    obtain ⟨i, hi, hlt⟩ := hindices entry hentry
    rw [beq_iff_eq.mp hname, Members.arrayIndex?_toString hshort] at hi
    have heq := Option.some.inj hi
    omega
  rw [push, Members.set, if_neg hnew, Members.arrayIndex?_toString hshort]
  simp only [Members.insertIndex_of_forall_lt hindices]
  simp [ofItems, itemMembers, List.zipIdx_append]

/-- The texts of items, with their indices, are spread over these indices. -/
theorem spread_zipIdx (texts : List String) (next : Nat) :
    spread next (next + texts.length) ((texts.zipIdx next).map fun (s, i) => (i, s)) = texts := by
  induction texts generalizing next with
  | nil => simp [spread]
  | cons s rest ih =>
    have hnext := ih (next + 1)
    rw [List.length_cons, List.zipIdx_cons, List.map_cons, spread]
    rw [Nat.add_right_comm, Nat.add_assoc] at hnext
    simp [hnext]

/-- The texts of items, under their indices as far as these are array indices. -/
theorem mapM_itemText? {items : List Node} {texts : List String}
    (h : List.Forall₂ (fun item s => item.text? = .ok s) items texts) (next : Nat) :
    ((items.zipIdx next).map fun (item, i) => (toString i, item)).mapM
        (fun (name, node) => itemText? name node) =
      .ok ((texts.zipIdx next).map fun (s, i) =>
        (Members.arrayIndex? (toString i)).map fun i => (i, s)) := by
  induction h generalizing next with
  | nil => rfl
  | @cons item s items texts htext _ ih =>
    have hitem : itemText? (toString next) item =
        .ok ((Members.arrayIndex? (toString next)).map fun i => (i, s)) := by
      rw [itemText?, htext]
      cases Members.arrayIndex? (toString next) with
      | none => rfl
      | some i => rfl
    rw [List.zipIdx_cons, List.map_cons, List.mapM_cons, ih (next + 1)]
    simp only [hitem]
    rfl

theorem isTraversable_itemMembers (items : List Node) :
    isTraversable (itemMembers items) = true := by
  have hfree (name : String) (hname : name ∈ ownNames) :
      Members.has (itemMembers items) name = false := by
    rw [Members.has, List.any_eq_false]
    intro entry hentry heq
    obtain ⟨i, -, hindex⟩ := mem_itemMembers hentry
    apply toString_not_mem_ownNames i
    rwa [← hindex, beq_iff_eq.mp heq]
  have hconstructor : Members.get? (itemMembers items) "constructor" = none := by
    have hhas := hfree "constructor" (by decide)
    rw [Members.has_eq_isSome] at hhas
    simpa using hhas
  simp [isTraversable, neededNames, hfree "map" (by decide), hfree "__proto__" (by decide),
    hconstructor]

theorem ofItems_ne_object (items : List Node) (ordinary : Bool) (members : Members Node) :
    ofItems items ≠ object ordinary members := by
  intro h
  cases h

/-- The text of a list whose items have texts: these with commas between them, if the list is not
too long. -/
theorem optionText_ofItems_eq {items : List Node} {texts : List String}
    (h : List.Forall₂ (fun item s => item.text? = .ok s) items texts) :
    (ofItems items).optionText =
      if longestJoined < items.length then .error .badLength
      else .ok (Text.joinWith ',' texts) := by
  show optionText (array items.length (itemMembers items)) = _
  rw [optionText, if_pos (isTraversable_itemMembers items), itemMembers, mapM_itemText? h 0]
  simp only [Except.bind, join]
  split_ifs with hlong
  · rfl
  · have hlength : items.length = texts.length := h.length_eq
    have hindices : (texts.zipIdx 0).map (fun (s, i) =>
          (Members.arrayIndex? (toString i)).map fun i => (i, s)) =
        (texts.zipIdx 0).map fun (s, i) => some (i, s) := by
      apply List.map_congr_left
      intro entry hentry
      obtain ⟨hlt, -⟩ := List.mem_zipIdx' hentry
      have hindex : Members.arrayIndex? (toString entry.2) = some entry.2 := by
        apply Members.arrayIndex?_toString
        unfold longestJoined at hlong
        omega
      simp only [hindex, Option.map_some]
    have hspread := spread_zipIdx texts 0
    rw [Nat.zero_add] at hspread
    have hitems : ((texts.zipIdx 0).map fun (s, i) => some (i, s)).filterMap id =
        (texts.zipIdx 0).map fun (s, i) => (i, s) := by
      simp [List.filterMap_map]
    rw [hindices, hitems, hlength, hspread]
    congr 1
    apply String.toList_injective
    rw [String.toList_intercalate, Text.joinWith]
    exact String.toList_ofList.symm

/-- The text of a list of texts, with commas between them. -/
theorem optionText_ofItems {texts : List String} (hshort : texts.length ≤ longestJoined) :
    (ofItems (texts.map ofText)).optionText = .ok (Text.joinWith ',' texts) := by
  have htexts : List.Forall₂ (fun item s => text? item = .ok s) (texts.map ofText) texts := by
    rw [List.forall₂_map_left_iff, List.forall₂_same]
    exact fun s _ => text?_ofText s
  rw [optionText_ofItems_eq htexts, if_neg (by simpa using hshort)]

/-- What is no list is replaced by a value without brackets. -/
theorem joined_unbracketed {old : Option Node} (h : ∀ node, old = some node → node.isScalar = true)
    (value : Node) : joined old false value = value := by
  cases old with
  | none => rfl
  | some node =>
    have hnode := h node rfl
    cases node with
    | array length members => cases hnode
    | _ => rfl

/-- What is no list becomes the first item of one with a value in brackets. -/
theorem joined_bracketed {old : Option Node} (h : ∀ node, old = some node → node.isScalar = true)
    (value : Node) : joined old true value = ofItems (old.toList ++ [value]) := by
  cases old with
  | none => rfl
  | some node =>
    have hnode := h node rfl
    cases node with
    | array length members => cases hnode
    | _ => rfl

end Node

/-! ## One value after the other -/

/-- A value that an option is given, the name of the option in brackets or not. -/
structure Given where
  bracketed : Bool
  value : String
deriving DecidableEq, Repr

namespace Given

/-- The node of the value. -/
def node (g : Given) : Node := .ofText g.value

end Given

/-- What an option is once it is given some more values. -/
def collect (old : Option Node) (given : List Given) : Option Node :=
  given.foldl (fun old g => some (Node.joined old g.bracketed g.node)) old

/-- The values that count in the end: those from the first one in brackets on, and the one before
it. -/
def counted (given : List Given) : List String :=
  ((given.takeWhile fun g => !g.bracketed).getLast?.toList ++
    given.dropWhile fun g => !g.bracketed).map (·.value)

/-- The text that an option has once it is given some values. -/
def collected (given : List Given) : String := Text.joinWith ',' (counted given)

theorem collect_append (old : Option Node) (first second : List Given) :
    collect old (first ++ second) = collect (collect old first) second :=
  List.foldl_append

/-- A list takes all values as items. -/
theorem collect_ofItems (items : List Node) {given : List Given}
    (hshort : items.length + given.length ≤ Node.longestJoined) :
    collect (some (.ofItems items)) given = some (.ofItems (items ++ given.map Given.node)) := by
  induction given generalizing items with
  | nil => simp [collect]
  | cons g rest ih =>
    rw [List.length_cons] at hshort
    have hpush : Node.joined (some (.ofItems items)) g.bracketed g.node =
        .ofItems (items ++ [g.node]) := by
      apply Node.push_ofItems
      unfold Node.longestJoined at hshort
      omega
    have hrest := ih (items ++ [g.node]) (by
      rw [List.length_append, List.length_singleton]
      omega)
    rw [collect, List.foldl_cons, hpush]
    rw [collect] at hrest
    rw [hrest, List.map_cons, List.append_assoc, List.singleton_append]

theorem isScalar_of_map_ofText (old : Option String) (node : Node)
    (h : old.map Node.ofText = some node) : node.isScalar = true := by
  obtain ⟨s, -, rfl⟩ := Option.map_eq_some_iff.mp h
  exact Node.isScalar_ofText s

/-- Without brackets the last value stays. -/
theorem collect_of_forall (old : Option String) {given : List Given}
    (h : ∀ g ∈ given, g.bracketed = false) :
    collect (old.map Node.ofText) given =
      ((given.getLast?.map (·.value)).or old).map Node.ofText := by
  induction given generalizing old with
  | nil => rfl
  | cons g rest ih =>
    have hg : g.bracketed = false := h g List.mem_cons_self
    have hjoined : Node.joined (old.map Node.ofText) g.bracketed g.node = .ofText g.value := by
      rw [hg]
      exact Node.joined_unbracketed (isScalar_of_map_ofText old) _
    have hrest := ih (some g.value) fun other hother => h other (List.mem_cons_of_mem g hother)
    rw [collect, List.foldl_cons, hjoined]
    show collect (Option.map Node.ofText (some g.value)) rest = _
    rw [hrest, List.getLast?_cons]
    cases rest.getLast? with
    | none => rfl
    | some last => rfl

/-! ## The values that count -/

theorem counted_of_forall {given : List Given} (h : ∀ g ∈ given, g.bracketed = false) :
    counted given = given.getLast?.toList.map (·.value) := by
  have hall : ∀ g ∈ given, (!g.bracketed) = true := by
    intro g hg
    rw [h g hg]
    rfl
  rw [counted, List.takeWhile_eq_self_iff.mpr hall, List.dropWhile_eq_nil_iff.mpr hall,
    List.append_nil]

theorem counted_append_cons {before after : List Given} {g : Given}
    (hbefore : ∀ earlier ∈ before, earlier.bracketed = false) (hg : g.bracketed = true) :
    counted (before ++ g :: after) =
      before.getLast?.toList.map (·.value) ++ g.value :: after.map (·.value) := by
  have hall : ∀ earlier ∈ before, (!earlier.bracketed) = true := by
    intro earlier hearlier
    rw [hbefore earlier hearlier]
    rfl
  have hstop : (!g.bracketed) = false := by rw [hg, Bool.not_true]
  rw [counted, Text.takeWhile_append_cons hall hstop, Text.dropWhile_append_cons hall hstop,
    List.map_append, List.map_cons]

theorem length_toList_getLast?_le (given : List Given) :
    given.getLast?.toList.length ≤ given.length := by
  cases given with
  | nil => simp
  | cons g rest => simp [List.getLast?_cons]

/-- Either no name is in brackets, or there is a first one that is. -/
theorem forall_or_exists_append (given : List Given) :
    (∀ g ∈ given, g.bracketed = false) ∨ ∃ before g after, given = before ++ g :: after ∧
      (∀ earlier ∈ before, earlier.bracketed = false) ∧ g.bracketed = true := by
  induction given with
  | nil => exact .inl fun _ hg => absurd hg List.not_mem_nil
  | cons first rest ih =>
    cases hfirst : first.bracketed with
    | true => exact .inr ⟨[], first, rest, rfl, fun _ hg => absurd hg List.not_mem_nil, hfirst⟩
    | false =>
      rcases ih with hrest | ⟨before, g, after, rfl, hbefore, hg⟩
      · exact .inl (List.forall_mem_cons.mpr ⟨hfirst, hrest⟩)
      · exact .inr ⟨first :: before, g, after, rfl,
          List.forall_mem_cons.mpr ⟨hfirst, hbefore⟩, hg⟩

theorem counted_ne_nil {given : List Given} (hne : given ≠ []) : counted given ≠ [] := by
  rcases forall_or_exists_append given with hplain | ⟨before, g, after, rfl, hbefore, hg⟩
  · obtain ⟨last, hlast⟩ := Option.ne_none_iff_exists'.mp (mt List.getLast?_eq_none_iff.mp hne)
    rw [counted_of_forall hplain, hlast]
    exact List.cons_ne_nil _ _
  · rw [counted_append_cons hbefore hg]
    exact List.append_ne_nil_of_right_ne_nil _ (List.cons_ne_nil _ _)

/-! ## What an option is in the end -/

/-- Values of which one is in brackets make a list. -/
theorem collect_append_cons {before after : List Given} {g : Given}
    (hbefore : ∀ earlier ∈ before, earlier.bracketed = false) (hg : g.bracketed = true)
    (hshort : (before ++ g :: after).length ≤ Node.longestJoined) :
    collect none (before ++ g :: after) =
      some (.ofItems ((counted (before ++ g :: after)).map Node.ofText)) := by
  have hfirst : collect none before = (before.getLast?.map (·.value)).map Node.ofText := by
    have hcollect := collect_of_forall none hbefore
    rwa [Option.or_none] at hcollect
  have hjoined : Node.joined (collect none before) g.bracketed g.node =
      .ofItems ((before.getLast?.toList.map Given.node) ++ [g.node]) := by
    rw [hg, hfirst, Node.joined_bracketed (isScalar_of_map_ofText _)]
    cases before.getLast? with
    | none => rfl
    | some last => rfl
  have hlast := length_toList_getLast?_le before
  rw [List.length_append, List.length_cons] at hshort
  have hroom : ((before.getLast?.toList.map Given.node) ++ [g.node]).length + after.length ≤
      Node.longestJoined := by
    rw [List.length_append, List.length_map, List.length_singleton]
    omega
  have hmore := collect_ofItems _ hroom
  have hnode : Given.node = fun g => Node.ofText g.value := rfl
  rw [collect_append, collect, List.foldl_cons, hjoined]
  show collect _ after = _
  rw [hmore, counted_append_cons hbefore hg]
  simp [hnode, Function.comp_def]

/-- An option that is given values is an option in the end, with the text that they make. -/
theorem exists_collect {given : List Given} (hne : given ≠ [])
    (hshort : given.length ≤ Node.longestJoined) :
    ∃ node, collect none given = some node ∧ (∀ ordinary members, node ≠ .object ordinary members) ∧
      node.optionText = .ok (collected given) := by
  rcases forall_or_exists_append given with hplain | ⟨before, g, after, rfl, hbefore, hg⟩
  · obtain ⟨last, hlast⟩ := Option.ne_none_iff_exists'.mp (mt List.getLast?_eq_none_iff.mp hne)
    have hcollect := collect_of_forall none hplain
    rw [hlast] at hcollect
    refine ⟨.ofText last.value, hcollect, fun ordinary members hobject => ?_, ?_⟩
    · have hscalar := Node.isScalar_ofText last.value
      rw [hobject] at hscalar
      cases hscalar
    · rw [Node.optionText_ofText, collected, counted_of_forall hplain, hlast]
      simp [Text.joinWith]
  · refine ⟨_, collect_append_cons hbefore hg hshort, Node.ofItems_ne_object _, ?_⟩
    apply Node.optionText_ofItems
    have hlast := length_toList_getLast?_le before
    rw [List.length_append, List.length_cons] at hshort
    rw [counted_append_cons hbefore hg, List.length_append, List.length_map, List.length_cons,
      List.length_map]
    omega

end LayeredSettings.Ini
