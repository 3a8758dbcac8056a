import LayeredSettings.Proofs.Number.Numeral
import LayeredSettings.Proofs.Setting.Absorption

/-!
# Results that are transformed again

A value that has the kind of a transform already is not changed by it, since files hold values of
their kinds and are read with the same transforms as variables. So a transform passes its own
results on. Of whole numbers this holds as long as they are finite: the text of a whole number that
is rounded to infinity is accepted, but infinity itself is not.

* `IsOversized` — the texts of such numbers;
* `int_run_int` — what becomes of a whole number that is transformed again;
* `passesOwnResults` — which results are passed on, and what becomes of the others.
-/

namespace LayeredSettings.Transform

/-- Whether a raw value is the text of a whole number that is rounded to infinity. -/
def IsOversized (v : Value) : Prop :=
  ∃ raw sign digits, v = .str raw ∧ Number.IsNumeral raw.toList sign digits ∧
    Number.leastInfinite ≤ Number.ofDigits 10 digits

theorem isOversized_str_iff {raw : String} {sign digits : List Char}
    (h : Number.IsNumeral raw.toList sign digits) :
    IsOversized (.str raw) ↔ Number.leastInfinite ≤ Number.ofDigits 10 digits := by
  constructor
  · rintro ⟨_, _, otherDigits, heq, hother, hlarge⟩
    obtain rfl := Value.str.inj heq
    rwa [h.unique hother]
  · intro hlarge
    exact ⟨raw, sign, digits, rfl, h, hlarge⟩

/-- Truth values are not changed, and neither is what is no text. -/
theorem bool_run_bool {files : FileTree} {v w : Value} (h : bool.run files v = .ok w)
    (later : FileTree) : bool.run later w = .ok w := by
  cases v with
  | str s =>
    obtain rfl := Except.ok.inj h
    rfl
  | _ =>
    obtain rfl := Except.ok.inj h
    rfl

/-- Lists are not changed, and neither is what is no text. -/
theorem list_run_list {files : FileTree} {v w : Value} (h : list.run files v = .ok w)
    (later : FileTree) : list.run later w = .ok w := by
  cases v with
  | str s =>
    obtain rfl := Except.ok.inj h
    rfl
  | _ =>
    obtain rfl := Except.ok.inj h
    rfl

/-- What the transform for integers makes of a value: a whole number, or infinity if the value is
an oversized text. -/
theorem int_run_eq_ok {files : FileTree} {v w : Value} (h : int.run files v = .ok w) :
    ∃ n : Number, w = .num n ∧
      (n.isInteger = true ∧ ¬ IsOversized v ∨
        IsOversized v ∧ ∃ negative, n = .infinite negative) := by
  rw [int_run] at h
  cases hwhole : whole? v with
  | none => rw [hwhole] at h; cases h
  | some n =>
    rw [hwhole] at h
    refine ⟨n, (Except.ok.inj h).symm, ?_⟩
    cases v with
    | num m =>
      rw [whole?] at hwhole
      split at hwhole
      · rename_i hinteger
        obtain rfl := Option.some.inj hwhole
        exact .inl ⟨hinteger, by rintro ⟨_, _, _, heq, -⟩; cases heq⟩
      · cases hwhole
    | str raw =>
      obtain ⟨sign, digits, hnumeral, rfl⟩ := Number.ofWholeText?_eq_some_iff.mp hwhole
      rw [isOversized_str_iff hnumeral, Number.isInteger_ofNumeral_iff]
      rcases Nat.lt_or_ge (Number.ofDigits 10 digits) Number.leastInfinite with hlt | hge
      · exact .inl ⟨hlt, Nat.not_le.mpr hlt⟩
      · refine .inr ⟨hge, decide (sign = ['-']), ?_⟩
        rw [Number.ofNumeral_eq]
        exact Number.ofRatio_one_eq_infinite_iff.mpr hge
    | _ => cases hwhole

/-- A whole number that is transformed again stays what it is; infinity is no whole number. -/
theorem int_run_int {files : FileTree} {v w : Value} (h : int.run files v = .ok w)
    (later : FileTree) :
    (¬ IsOversized v ∧ int.run later w = .ok w) ∨
      (IsOversized v ∧ (∃ negative, w = .num (.infinite negative)) ∧
        int.run later w = .error (.of (.value w "integer" none))) := by
  obtain ⟨n, rfl, ⟨hinteger, hfits⟩ | ⟨hlarge, negative, rfl⟩⟩ := int_run_eq_ok h
  · refine .inl ⟨hfits, ?_⟩
    rw [int_run, whole?, if_pos hinteger]
  · exact .inr ⟨hlarge, ⟨negative, rfl⟩, rfl⟩

/-- A raw text that the transform for integers accepts is an integer for a file too, and the same
one. -/
theorem extract_of_int_run {files : FileTree} {raw : String} {w : Value} {key : OptionKey}
    (hkey : key.valueType = .int) (h : int.run files (.str raw) = .ok w) :
    Sectioned.Document.extract key raw = .ok w := by
  rw [int_run, whole?] at h
  unfold Sectioned.Document.extract
  rw [hkey]
  dsimp only
  cases hread : Number.ofWholeText? raw with
  | none => rw [hread] at h; cases h
  | some n =>
    rw [hread] at h
    exact h

/-- The transforms for truth values and lists pass their results on. The one for integers passes on
exactly those that do not come from an oversized text, which it turns into infinity and then
refuses; so an option of a file and a variable with the same text come to the same integer, unless
the text is oversized. -/
theorem passesOwnResults (files later : FileTree) (v w : Value) :
    (∀ t ∈ [bool, list], t.run files v = .ok w → t.run later w = .ok w) ∧
    (int.run files v = .ok w →
      (int.run later w = .ok w ↔ ¬ IsOversized v) ∧
      (IsOversized v → (∃ negative, w = .num (.infinite negative)) ∧
        int.run later w = .error (.of (.value w "integer" none)))) ∧
    ∀ (key : OptionKey) (raw : String), key.valueType = .int →
      int.run files (.str raw) = .ok w →
        Sectioned.Document.extract key raw = .ok w ∧
        ((Sectioned.Document.extract key raw).bind (int.run later) = .ok w ↔
          ¬ IsOversized (.str raw)) := by
  have hagain {v : Value} (h : int.run files v = .ok w) :
      int.run later w = .ok w ↔ ¬ IsOversized v := by
    rcases int_run_int h later with ⟨hfits, hrun⟩ | ⟨hlarge, -, hrun⟩
    · exact iff_of_true hrun hfits
    · rw [hrun]
      exact iff_of_false nofun (not_not_intro hlarge)
  refine ⟨?_, fun h => ⟨hagain h, fun hlarge => ?_⟩, ?_⟩
  · intro t ht h
    simp only [List.mem_cons, List.not_mem_nil, or_false] at ht
    rcases ht with rfl | rfl
    · exact bool_run_bool h later
    · exact list_run_list h later
  · rcases int_run_int h later with ⟨hfits, -⟩ | ⟨-, hinfinite, hrun⟩
    · exact absurd hlarge hfits
    · exact ⟨hinfinite, hrun⟩
  · intro key raw hkey h
    have hextract := extract_of_int_run hkey h
    rw [hextract]
    exact ⟨rfl, hagain h⟩

/-- The digits of 10^309. -/
def oversizedDigits : List Char := '1' :: List.replicate 309 '0'

/-- Their text. -/
def oversizedText : String := String.ofList oversizedDigits

theorem leastInfinite_le_oversizedDigits :
    Number.leastInfinite ≤ Number.ofDigits 10 oversizedDigits := by decide +kernel

theorem isNumeral_oversizedText : Number.IsNumeral oversizedText.toList [] oversizedDigits := by
  have htext : oversizedText.toList = [] ++ ([] ++ oversizedDigits) ++ [] := by
    rw [oversizedText, String.toList_ofList, List.append_nil, List.nil_append, List.nil_append]
  have hdigits : ∀ c ∈ oversizedDigits, Text.isDigit c = true :=
    List.all_eq_true.mp (by decide +kernel)
  exact ⟨⟨[], [], htext, Text.isPadding_nil, Text.isPadding_nil⟩, .inl rfl, List.cons_ne_nil _ _,
    hdigits⟩

/-- The transform for integers turns the text into infinity, which it refuses; so does a file whose
option has this text, once the transform is applied to what is read. -/
theorem passesOwnResults_oversizedText :
    int.run (.empty []) (.str oversizedText) = .ok (.num (.infinite false)) ∧
    int.run (.empty []) (.num (.infinite false)) =
      .error (.of (.value (.num (.infinite false)) "integer" none)) ∧
    Sectioned.Document.extract ⟨"s", "o", .int⟩ oversizedText = .ok (.num (.infinite false)) ∧
    (Sectioned.Document.extract ⟨"s", "o", .int⟩ oversizedText).bind (int.run (.empty [])) ≠
      .ok (.num (.infinite false)) := by
  have hoversized : IsOversized (.str oversizedText) :=
    (isOversized_str_iff isNumeral_oversizedText).mpr leastInfinite_le_oversizedDigits
  have hread : Number.ofWholeText? oversizedText = some (.infinite false) := by
    refine Number.ofWholeText?_eq_some_iff.mpr ⟨[], oversizedDigits, isNumeral_oversizedText, ?_⟩
    rw [Number.ofNumeral_eq]
    exact (Number.ofRatio_one_eq_infinite_iff.mpr leastInfinite_le_oversizedDigits).symm
  have hrun : int.run (.empty []) (.str oversizedText) = .ok (.num (.infinite false)) := by
    rw [int_run, whole?, hread]
  obtain ⟨-, hint, hfile⟩ :=
    passesOwnResults (.empty []) (.empty []) (.str oversizedText) (.num (.infinite false))
  obtain ⟨-, hrefused⟩ := hint hrun
  obtain ⟨hextract, hsame⟩ := hfile ⟨"s", "o", .int⟩ oversizedText rfl hrun
  refine ⟨hrun, (hrefused hoversized).2, hextract, fun h => ?_⟩
  exact hsame.mp h hoversized

end LayeredSettings.Transform
