import LayeredSettings.Text.Blank
import LayeredSettings.Text.Case
import Mathlib.Tactic.SplitIfs

/-!
# Lower case is final

A text in lower case is its own lower case form. The table of case partners says so by itself: no
range of capital letters covers a letter that another range leads to. That is checked range against
range, by where the two lie, so that the letters need not be gone through one by one.

* `CaseRange.covers_of_misses` — two ranges of which one misses the other;
* `misses_of_mem_lowerRanges` — all ranges of the table miss each other;
* `lower_lower`, `lowerCase_lowerCase` — lower casing twice is lower casing once;
* `lowerCase_of_isDigit`, `lowerCase_eq_of_isDigit` — digits have no other case, and are that of
  nothing else.
-/

namespace LayeredSettings.Text

/-! ## Ranges -/

/-- The code point that the first letter of a range is moved to. -/
def CaseRange.low (r : CaseRange) : Nat := (r.first + r.shift).toNat

/-- The code point that the last letter of a range is moved to. -/
def CaseRange.high (r : CaseRange) : Nat := (r.last + r.shift).toNat

/-- Whether the letters of a range are moved past another range: to below its beginning, above its
end, or between its letters, if every other code point is one of these. -/
def CaseRange.misses (r other : CaseRange) : Bool :=
  Nat.blt r.high other.first || Nat.blt other.last r.low ||
    (Nat.beq other.stride 2 && (Nat.beq r.stride 2 || Nat.beq r.first r.last) &&
      Nat.beq ((r.low + other.first) % 2) 1)

theorem CaseRange.covers_eq_true_iff {r : CaseRange} {n : Nat} :
    r.covers n = true ↔ r.first ≤ n ∧ n ≤ r.last ∧ (n - r.first) % r.stride = 0 := by
  simp [covers, and_assoc]

theorem CaseRange.misses_eq_true_iff {r other : CaseRange} :
    r.misses other = true ↔ r.high < other.first ∨ other.last < r.low ∨
      other.stride = 2 ∧ (r.stride = 2 ∨ r.first = r.last) ∧ (r.low + other.first) % 2 = 1 := by
  simp [misses, and_assoc, or_assoc]

/-- A letter that is moved past a range is none of its letters. -/
theorem CaseRange.covers_of_misses {r other : CaseRange} (h : r.misses other = true)
    (hshift : 0 ≤ r.first + r.shift) {n : Nat} (hn : r.covers n = true) :
    other.covers (n + r.shift).toNat = false := by
  rw [Bool.eq_false_iff, Ne, covers_eq_true_iff]
  rintro ⟨hfirst, hlast, hstep⟩
  obtain ⟨hlow, hhigh, hstride⟩ := covers_eq_true_iff.mp hn
  have hmoved : (n + r.shift).toNat = r.low + (n - r.first) := by
    unfold low
    omega
  rcases misses_eq_true_iff.mp h with hbelow | habove | ⟨hother, hr, hparity⟩
  · unfold high at hbelow
    omega
  · unfold low at habove
    omega
  · rw [hmoved] at hfirst hstep
    rw [hother] at hstep
    rcases hr with hr | hr
    · rw [hr] at hstride
      omega
    · omega

/-- The dotted capital I, which has two characters for its lower case form. -/
def dottedRange : CaseRange := ⟨0x0130, 0x0130, 1, 0⟩

/-- No letter of the table is moved to a capital letter. -/
theorem misses_of_mem_lowerRanges {r other : CaseRange} (hr : r ∈ lowerRanges)
    (hother : other ∈ dottedRange :: lowerRanges) :
    0 ≤ r.first + r.shift ∧ r.misses other = true := by
  have hall : (lowerRanges.all fun r =>
      decide (0 ≤ r.first + r.shift) && (dottedRange :: lowerRanges).all r.misses) = true := by
    decide +kernel
  have hboth := List.all_eq_true.mp hall r hr
  rw [Bool.and_eq_true, decide_eq_true_eq, List.all_eq_true] at hboth
  exact ⟨hboth.1, hboth.2 other hother⟩

/-! ## Characters -/

theorem partner?_eq_none_iff {c : Char} :
    partner? lowerRanges c = none ↔ ∀ r ∈ lowerRanges, r.covers c.toNat = false := by
  simp [partner?, List.find?_eq_none]

/-- Whether lower casing leaves a character alone in any text. -/
def IsLowered (c : Char) : Prop := c ≠ 'Σ' ∧ lowerChar c = [c]

instance (c : Char) : Decidable (IsLowered c) :=
  inferInstanceAs (Decidable (c ≠ 'Σ' ∧ lowerChar c = [c]))

theorem isLowered_of_partner?_eq_none {c : Char} (hdotted : c ≠ 'İ')
    (h : partner? lowerRanges c = none) : IsLowered c := by
  constructor
  · rintro rfl
    have hsigma : (partner? lowerRanges 'Σ').isSome = true := by decide +kernel
    rw [h] at hsigma
    cases hsigma
  · rw [lowerChar, if_neg hdotted, h, Option.getD_none]

/-- What is no character reads as null. -/
theorem CaseRange.covers_ofNat {r : CaseRange} (hnull : r.covers 0 = false) {n : Nat}
    (h : r.covers n = false) : r.covers (Char.ofNat n).toNat = false := by
  unfold Char.ofNat
  by_cases hvalid : n.isValidChar
  · rw [dif_pos hvalid]
    exact h
  · rw [dif_neg hvalid]
    exact hnull

/-- The partner of a capital letter is no capital letter. -/
theorem isLowered_of_partner?_eq_some {c d : Char} (h : partner? lowerRanges c = some d) :
    IsLowered d := by
  obtain ⟨r, hfind, rfl⟩ := Option.map_eq_some_iff.mp h
  have hr := List.mem_of_find?_eq_some hfind
  have hcovers : r.covers c.toNat = true := by simpa using List.find?_some hfind
  have hmissed : ∀ other ∈ dottedRange :: lowerRanges,
      other.covers (Char.ofNat ((c.toNat : Int) + r.shift).toNat).toNat = false := by
    intro other hother
    -- null lies below all letters
    have hnull : ∀ other ∈ dottedRange :: lowerRanges, other.covers 0 = false := by
      decide +kernel
    obtain ⟨hshift, hmisses⟩ := misses_of_mem_lowerRanges hr hother
    apply CaseRange.covers_ofNat (hnull other hother)
    exact CaseRange.covers_of_misses hmisses hshift hcovers
  refine isLowered_of_partner?_eq_none ?_ (partner?_eq_none_iff.mpr fun other hother =>
    hmissed other (List.mem_cons_of_mem _ hother))
  intro hdotted
  have hcovered := hmissed dottedRange List.mem_cons_self
  rw [hdotted] at hcovered
  exact absurd hcovered (by decide)

theorem isLowered_of_mem_lowerChar {c d : Char} (hd : d ∈ lowerChar c) : IsLowered d := by
  unfold lowerChar at hd
  split_ifs at hd with hdotted
  · have hboth : IsLowered 'i' ∧ IsLowered '\u0307' := by decide +kernel
    rcases List.mem_cons.mp hd with rfl | hd
    · exact hboth.1
    · rw [List.mem_singleton.mp hd]
      exact hboth.2
  · rw [List.mem_singleton.mp hd]
    cases hpartner : partner? lowerRanges c with
    | none => exact isLowered_of_partner?_eq_none hdotted hpartner
    | some partner => exact isLowered_of_partner?_eq_some hpartner

/-! ## Texts -/

/-- A lower case form is made of characters that lower casing leaves alone. -/
theorem isLowered_of_mem_lowerFrom {before cs : List Char} {d : Char}
    (hd : d ∈ lowerFrom before cs) : IsLowered d := by
  induction cs generalizing before with
  | nil => cases hd
  | cons c rest ih =>
    rw [lowerFrom, List.mem_append] at hd
    rcases hd with hd | hd
    · have hsigmas : IsLowered 'ς' ∧ IsLowered 'σ' := by decide +kernel
      split_ifs at hd
      · rw [List.mem_singleton.mp hd]
        exact hsigmas.1
      · rw [List.mem_singleton.mp hd]
        exact hsigmas.2
      · exact isLowered_of_mem_lowerChar hd
    · exact ih hd

theorem lowerFrom_of_isLowered {before cs : List Char} (h : ∀ c ∈ cs, IsLowered c) :
    lowerFrom before cs = cs := by
  induction cs generalizing before with
  | nil => rfl
  | cons c rest ih =>
    obtain ⟨hsigma, hlower⟩ := h c List.mem_cons_self
    rw [lowerFrom, if_neg hsigma, hlower, ih fun d hd => h d (List.mem_cons_of_mem c hd)]
    rfl

/-- Lower casing twice is lower casing once, whatever the form of a sigma depends on. -/
theorem lower_lower (cs : List Char) : lower (lower cs) = lower cs :=
  lowerFrom_of_isLowered fun _ hd => isLowered_of_mem_lowerFrom hd

theorem lowerCase_lowerCase (s : String) : lowerCase (lowerCase s) = lowerCase s := by
  rw [lowerCase, toList_lowerCase, lower_lower, lowerCase]

/-- A capital letter of ASCII is moved. -/
theorem not_isLowered_of_isUpper {c : Char} (h : c.isUpper = true) : ¬ IsLowered c := by
  have hbounds : 'A'.val ≤ c.val ∧ c.val ≤ 'Z'.val := of_decide_eq_true h
  have hlow : 0x41 ≤ c.toNat := hbounds.1
  have hhigh : c.toNat ≤ 0x5a := hbounds.2
  have hmoved : ∀ n < 0x5b, 0x41 ≤ n → ¬ IsLowered (Char.ofNat n) := by decide +kernel
  have hc := hmoved c.toNat (Nat.lt_succ_of_le hhigh) hlow
  rwa [Char.ofNat_toNat] at hc

/-! ## Digits -/

/-- The digits, as a range of letters that stay what they are. -/
def digitRange : CaseRange := ⟨0x0030, 0x0039, 1, 0⟩

theorem covers_digitRange_iff {c : Char} :
    digitRange.covers c.toNat = true ↔ isDigit c = true := by
  have hzero : '0'.toNat = 0x0030 := rfl
  have hnine : '9'.toNat = 0x0039 := rfl
  rw [CaseRange.covers_eq_true_iff]
  simp only [digitRange, isDigit, Bool.and_eq_true, decide_eq_true_eq, Char.le_def,
    UInt32.le_iff_toNat_le, Nat.mod_one, and_true]
  show _ ↔ '0'.toNat ≤ c.toNat ∧ c.toNat ≤ '9'.toNat
  rw [hzero, hnine]

theorem isLowered_of_isDigit {c : Char} (h : isDigit c = true) : IsLowered c := by
  obtain ⟨hlow, hhigh, -⟩ := CaseRange.covers_eq_true_iff.mp (covers_digitRange_iff.mpr h)
  have hnone : ∀ n < 0x003a, 0x0030 ≤ n → ∀ r ∈ lowerRanges, r.covers n = false := by
    decide +kernel
  refine isLowered_of_partner?_eq_none ?_ (partner?_eq_none_iff.mpr ?_)
  · rintro rfl
    exact absurd h (by decide)
  · exact hnone c.toNat (Nat.lt_succ_of_le hhigh) hlow

/-- No letter is moved to a digit. -/
theorem lowerChar_of_isDigit {c : Char} (h : ∀ d ∈ lowerChar c, isDigit d = true) :
    lowerChar c = [c] := by
  unfold lowerChar at h ⊢
  split_ifs at h ⊢ with hdotted
  · exact absurd (h 'i' List.mem_cons_self) (by decide)
  · cases hpartner : partner? lowerRanges c with
    | none => rfl
    | some d =>
      rw [hpartner] at h
      obtain ⟨r, hfind, rfl⟩ := Option.map_eq_some_iff.mp hpartner
      have hcovers : r.covers c.toNat = true := by simpa using List.find?_some hfind
      have hall : (lowerRanges.all fun r =>
          decide (0 ≤ r.first + r.shift) && r.misses digitRange) = true := by
        decide +kernel
      have hr := List.all_eq_true.mp hall r (List.mem_of_find?_eq_some hfind)
      rw [Bool.and_eq_true, decide_eq_true_eq] at hr
      have hmissed := CaseRange.covers_ofNat (by decide)
        (CaseRange.covers_of_misses hr.2 hr.1 hcovers)
      have hdigit := covers_digitRange_iff.mpr (h _ List.mem_cons_self)
      rw [Option.getD_some, hmissed] at hdigit
      cases hdigit

theorem lowerFrom_of_isDigit {before cs : List Char}
    (h : ∀ d ∈ lowerFrom before cs, isDigit d = true) : lowerFrom before cs = cs := by
  induction cs generalizing before with
  | nil => rfl
  | cons c rest ih =>
    rw [lowerFrom] at h ⊢
    obtain ⟨hfirst, hrest⟩ := List.forall_mem_append.mp h
    rw [ih hrest]
    split_ifs at hfirst ⊢
    · exact absurd (hfirst 'ς' List.mem_cons_self) (by decide)
    · exact absurd (hfirst 'σ' List.mem_cons_self) (by decide)
    · rw [lowerChar_of_isDigit hfirst]
      rfl

/-- Digits are in lower case. -/
theorem lowerCase_of_isDigit {s : String} (h : ∀ c ∈ s.toList, isDigit c = true) :
    lowerCase s = s := by
  have hlower : lower s.toList = s.toList :=
    lowerFrom_of_isLowered fun c hc => isLowered_of_isDigit (h c hc)
  rw [lowerCase, hlower, String.ofList_toList]

/-- Digits are the lower case form of nothing but themselves. -/
theorem lowerCase_eq_of_isDigit {s : String} (h : ∀ c ∈ (lowerCase s).toList, isDigit c = true) :
    lowerCase s = s := by
  rw [toList_lowerCase] at h
  have hlower : lower s.toList = s.toList := lowerFrom_of_isDigit h
  rw [lowerCase, hlower, String.ofList_toList]

end LayeredSettings.Text
