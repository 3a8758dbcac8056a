import LayeredSettings.Proofs.Members
import Mathlib.Data.Nat.Digits.Defs

/-!
# Listing order

Members are listed with the names that are array indices first, in ascending order, and all other
names as they came. Members in this order are what they are when they are set one after the other,
and whatever is set one after the other is in this order.

* `arrayIndex?_injective` — an index has one spelling;
* `isListed_ofList` — what is made by setting is in order;
* `ofList_of_isListed` — what is in order is made by setting it as it is.
-/

namespace LayeredSettings.Members

variable {α : Type}

/-! ## Spellings of indices -/

theorem digitChar_toNat {c : Char} (hlow : '0' ≤ c) (hhigh : c ≤ '9') :
    c.toNat - '0'.toNat < 10 ∧ Nat.digitChar (c.toNat - '0'.toNat) = c := by
  have hlow : 0x30 ≤ c.toNat := hlow
  have hhigh : c.toNat ≤ 0x39 := hhigh
  have hzero : '0'.toNat = 0x30 := rfl
  have hlt : c.toNat - '0'.toNat < 10 := by omega
  refine ⟨hlt, Char.toNat_inj.mp ?_⟩
  rw [Nat.toNat_digitChar_of_lt_ten hlt]
  omega

/-- Digits without a leading zero are those of their number. -/
theorem toDigits_ofDigitChars {cs : List Char} (hne : cs ≠ [])
    (hdigits : ∀ c ∈ cs, '0' ≤ c ∧ c ≤ '9') (hzero : cs.head? = some '0' → cs.length = 1) :
    Nat.toDigits 10 (Nat.ofDigitChars 10 cs 0) = cs := by
  induction cs using List.reverseRecOn with
  | nil => exact absurd rfl hne
  | append_singleton init c ih =>
    obtain ⟨hlt, hchar⟩ := digitChar_toNat (hdigits c (by simp)).1 (hdigits c (by simp)).2
    rw [Nat.ofDigitChars_append, Nat.ofDigitChars_cons, Nat.ofDigitChars_nil]
    by_cases hinit : init = []
    · subst hinit
      rw [Nat.ofDigitChars_nil, Nat.mul_zero, Nat.zero_add, Nat.toDigits_of_lt_base hlt, hchar,
        List.nil_append]
    · have hhead : init.head? ≠ some '0' := by
        intro hhead
        have hlength := hzero (by rw [List.head?_append_of_ne_nil _ hinit, hhead])
        rw [List.length_append, List.length_singleton, Nat.add_eq_right] at hlength
        exact hinit (List.eq_nil_of_length_eq_zero hlength)
      have hnumber := ih hinit (fun d hd => hdigits d (List.mem_append_left _ hd))
        fun h => absurd h hhead
      have hpos : 0 < Nat.ofDigitChars 10 init 0 := by
        by_contra hnot
        rw [Nat.eq_zero_of_not_pos hnot] at hnumber
        exact hhead (by rw [← hnumber]; rfl)
      rw [← Nat.toDigits_append_toDigits (by decide) hpos hlt, hnumber,
        Nat.toDigits_of_lt_base hlt, hchar]

/-- A name that is an index is the number of the index in digits. -/
theorem toList_of_arrayIndex? {name : String} {n : Nat} (h : arrayIndex? name = some n) :
    name.toList = Nat.toDigits 10 n := by
  unfold arrayIndex? at h
  dsimp only at h
  split at h
  · cases h
  · rename_i hform
    split at h
    · cases h
    · rename_i hzero
      split at h
      · obtain rfl := Option.some.inj h
        simp only [Bool.or_eq_true, not_or, Bool.not_eq_true', Bool.not_eq_false,
          List.isEmpty_iff, List.all_eq_true, Bool.and_eq_true, decide_eq_true_eq] at hform
        rw [← Nat.ofDigitChars_eq_foldl]
        refine (toDigits_ofDigitChars hform.1.1 hform.2 fun hhead => ?_).symm
        have hpos : 0 < name.toList.length := List.length_pos_of_ne_nil hform.1.1
        have hshort : ¬ 1 < name.toList.length := by simpa [hhead] using hzero
        omega
      · cases h

/-- An index has one spelling. -/
theorem arrayIndex?_injective {name other : String} {n : Nat} (h : arrayIndex? name = some n)
    (hother : arrayIndex? other = some n) : name = other :=
  String.toList_inj.mp ((toList_of_arrayIndex? h).trans (toList_of_arrayIndex? hother).symm)

/-! ## Order -/

/-- Whether a name may be listed before another: an index stands after smaller indices only. -/
def MayPrecede (first second : String) : Prop :=
  ∀ j, arrayIndex? second = some j → ∃ i, arrayIndex? first = some i ∧ i < j

/-- Whether members are in listing order. -/
def IsListed (members : Members α) : Prop := (names members).Pairwise MayPrecede

/-- A name that is no index may stand after all others. -/
theorem mayPrecede_of_eq_none {first second : String} (h : arrayIndex? second = none) :
    MayPrecede first second := by
  intro j hj
  rw [h] at hj
  cases hj

theorem isListed_nil : IsListed ([] : Members α) := List.Pairwise.nil

/-- Names that are no indices may stand in any order. -/
theorem isListed_of_forall_eq_none {members : Members α}
    (h : ∀ name ∈ names members, arrayIndex? name = none) : IsListed members :=
  List.pairwise_of_forall_mem_list fun _ _ other hother => mayPrecede_of_eq_none (h other hother)

theorem isListed_cons {entry : String × α} {rest : Members α} :
    IsListed (entry :: rest) ↔ (∀ name ∈ names rest, MayPrecede entry.1 name) ∧ IsListed rest :=
  List.pairwise_cons

theorem isListed_concat {members : Members α} {name : String} {part : α} :
    IsListed (members ++ [(name, part)]) ↔
      IsListed members ∧ ∀ other ∈ names members, MayPrecede other name := by
  have hnames : names (members ++ [(name, part)]) = names members ++ [name] := by
    simp [names]
  rw [IsListed, hnames, List.pairwise_append, IsListed]
  simp

theorem names_insertIndex_subset {members : Members α} {index : Nat} {name other : String}
    {part : α} (h : other ∈ names (insertIndex members index name part)) :
    other = name ∨ other ∈ names members := by
  obtain ⟨entry, hentry, rfl⟩ := List.mem_map.mp h
  rcases mem_insertIndex.mp hentry with rfl | hentry
  · exact .inl rfl
  · exact .inr (List.mem_map_of_mem hentry)

/-! ## Setting one name after the other -/

theorem isListed_insertIndex {members : Members α} (h : IsListed members) {index : Nat}
    {name : String} (hindex : arrayIndex? name = some index) (hnew : name ∉ names members)
    (part : α) : IsListed (insertIndex members index name part) := by
  induction members with
  | nil => exact List.pairwise_singleton _ _
  | cons entry rest ih =>
    obtain ⟨hbefore, hrest⟩ := isListed_cons.mp h
    have hnew : name ≠ entry.1 ∧ name ∉ names rest := by
      simpa [names] using hnew
    unfold insertIndex
    split
    · rename_i i hi
      split
      · rename_i hlt
        refine isListed_cons.mpr ⟨fun other hother => ?_, ih hrest hnew.2⟩
        rcases names_insertIndex_subset hother with rfl | hold
        · intro j hj
          rw [hindex] at hj
          exact ⟨i, hi, Option.some.inj hj ▸ hlt⟩
        · exact hbefore other hold
      · -- the first index that is not smaller is greater, since an index has one spelling
        rename_i hge
        have hne : index ≠ i := by
          rintro rfl
          exact hnew.1 (arrayIndex?_injective hindex hi)
        refine isListed_cons.mpr ⟨fun other hother j hj => ⟨index, hindex, ?_⟩, h⟩
        rcases List.mem_cons.mp hother with rfl | hold
        · have hij : i = j := Option.some.inj (hi.symm.trans hj)
          omega
        · obtain ⟨k, hk, hkj⟩ := hbefore other hold j hj
          have hik : i = k := Option.some.inj (hi.symm.trans hk)
          omega
    · rename_i hnone
      refine isListed_cons.mpr ⟨fun other hother j hj => ?_, h⟩
      rcases List.mem_cons.mp hother with rfl | hold
      · cases hnone.symm.trans hj
      · obtain ⟨k, hk, -⟩ := hbefore other hold j hj
        cases hnone.symm.trans hk

/-- Setting a name keeps the order. -/
theorem isListed_set {members : Members α} (h : IsListed members) (name : String) (part : α) :
    IsListed (set members name part) := by
  unfold set
  split
  · rwa [IsListed, names_replace]
  · rename_i hhas
    split
    · rename_i index hindex
      exact isListed_insertIndex h hindex (fun hmem => hhas (has_eq_true_iff.mpr hmem)) part
    · rename_i hnone
      exact isListed_concat.mpr ⟨h, fun other _ => mayPrecede_of_eq_none hnone⟩

/-- What is set one after the other is in listing order. -/
theorem isListed_ofList (entries : List (String × α)) : IsListed (ofList entries) := by
  induction entries using List.reverseRecOn with
  | nil => exact isListed_nil
  | append_singleton entries last ih =>
    rw [ofList_concat]
    exact isListed_set ih last.1 last.2

/-- Members in listing order come out as they are when they are set one after the other. -/
theorem ofList_of_isListed {members : Members α} (hnames : (names members).Nodup)
    (h : IsListed members) : ofList members = members := by
  induction members using List.reverseRecOn with
  | nil => rfl
  | append_singleton members last ih =>
    obtain ⟨name, part⟩ := last
    obtain ⟨hlisted, hbefore⟩ := isListed_concat.mp h
    have hsplit : (names members).Nodup ∧ name ∉ names members := by
      rw [names, List.map_append, List.nodup_append] at hnames
      exact ⟨hnames.1, fun hmem => hnames.2.2 name hmem name (by simp) rfl⟩
    rw [ofList_concat, ih hsplit.1 hlisted, set,
      if_neg fun hhas => hsplit.2 (has_eq_true_iff.mp hhas)]
    split
    · rename_i index hindex
      exact insertIndex_of_forall_lt
        (fun entry hentry => hbefore entry.1 (List.mem_map_of_mem hentry) index hindex) name part
    · rfl

end LayeredSettings.Members
