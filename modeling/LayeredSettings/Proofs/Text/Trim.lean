import LayeredSettings.Text.Blank

/-!
# Trimming padded text

What is left of a text after trimming, by the characters at its ends.

* `takeWhile_append_cons`, `dropWhile_append_cons` — a search stops where its condition first fails;
* `trimStart_append_cons`, `trimEnd_append_cons` — trimming stops at a character that is not blank;
* `trimStart_trimEnd` — the two ends are trimmed independently of each other;
* `trim_pad` — a trimmed text comes out of any padding.
-/

namespace LayeredSettings.Text

/-- Whether a text is white space throughout. -/
def IsPadding (cs : List Char) : Prop := ∀ c ∈ cs, isBlank c = true

instance (cs : List Char) : Decidable (IsPadding cs) :=
  List.decidableBAll (fun c => isBlank c = true) cs

theorem isPadding_nil : IsPadding [] := fun _ h => absurd h List.not_mem_nil

/-! ## Stopping at a character -/

section

variable {α : Type} {p : α → Bool} {before : List α} {stop : α}

theorem takeWhile_append_cons (h : ∀ c ∈ before, p c = true) (hstop : p stop = false)
    (after : List α) : (before ++ stop :: after).takeWhile p = before := by
  rw [List.takeWhile_append_of_pos h, List.takeWhile_cons_of_neg (by simp [hstop]),
    List.append_nil]

theorem dropWhile_append_cons (h : ∀ c ∈ before, p c = true) (hstop : p stop = false)
    (after : List α) : (before ++ stop :: after).dropWhile p = stop :: after := by
  rw [List.dropWhile_append_of_pos h, List.dropWhile_cons_of_neg (by simp [hstop])]

end

/-! ## Trimming -/

theorem trimStart_append {pad : List Char} (hpad : IsPadding pad) (cs : List Char) :
    trimStart (pad ++ cs) = trimStart cs := by
  rw [trimStart, List.dropWhile_append_of_pos hpad, trimStart]

theorem trimStart_append_cons {pad : List Char} (hpad : IsPadding pad) {c : Char}
    (hc : isBlank c = false) (cs : List Char) : trimStart (pad ++ c :: cs) = c :: cs := by
  rw [trimStart_append hpad, trimStart, List.dropWhile_cons_of_neg (by simp [hc])]

theorem trimEnd_append {pad : List Char} (hpad : IsPadding pad) (cs : List Char) :
    trimEnd (cs ++ pad) = trimEnd cs := by
  rw [trimEnd, List.reverse_append, List.dropWhile_append_of_pos, trimEnd]
  intro c hc
  exact hpad c (List.mem_reverse.mp hc)

/-- Trimming the end leaves all up to a character that is not blank. -/
theorem trimEnd_append_cons (before : List Char) {c : Char} (hc : isBlank c = false)
    (after : List Char) : trimEnd (before ++ c :: after) = before ++ c :: trimEnd after := by
  rw [trimEnd, List.reverse_append, List.reverse_cons, List.append_assoc, List.dropWhile_append,
    trimEnd]
  have hstop : List.dropWhile isBlank ([c] ++ before.reverse) = c :: before.reverse := by
    rw [List.singleton_append, List.dropWhile_cons_of_neg (by simp [hc])]
  by_cases h : (after.reverse.dropWhile isBlank) = []
  · rw [h, List.isEmpty_nil, if_pos rfl, hstop]
    simp
  · rw [if_neg (by simpa [List.isEmpty_iff] using h)]
    simp

theorem trimEnd_cons {c : Char} (hc : isBlank c = false) (cs : List Char) :
    trimEnd (c :: cs) = c :: trimEnd cs :=
  trimEnd_append_cons [] hc cs

theorem trimEnd_of_isPadding {cs : List Char} (h : IsPadding cs) : trimEnd cs = [] := by
  have hall : cs = [] ++ cs := rfl
  rw [hall, trimEnd_append h]
  rfl

theorem trimStart_of_isPadding {cs : List Char} (h : IsPadding cs) : trimStart cs = [] := by
  have hall : cs = cs ++ [] := (List.append_nil cs).symm
  rw [hall, trimStart_append h]
  rfl

/-- A text that is not white space throughout has a first character that is not blank. -/
theorem isPadding_or_eq_append (cs : List Char) :
    IsPadding cs ∨ ∃ pad c rest, cs = pad ++ c :: rest ∧ IsPadding pad ∧ isBlank c = false := by
  induction cs with
  | nil => exact .inl isPadding_nil
  | cons first cs ih =>
    cases hfirst : isBlank first with
    | false => exact .inr ⟨[], first, cs, rfl, isPadding_nil, hfirst⟩
    | true =>
      rcases ih with h | ⟨pad, c, rest, rfl, hpad, hc⟩
      · exact .inl (List.forall_mem_cons.mpr ⟨hfirst, h⟩)
      · exact .inr ⟨first :: pad, c, rest, rfl, List.forall_mem_cons.mpr ⟨hfirst, hpad⟩, hc⟩

/-- The ends of a text are trimmed independently of each other. -/
theorem trimStart_trimEnd (cs : List Char) : trimStart (trimEnd cs) = trim cs := by
  rcases isPadding_or_eq_append cs with h | ⟨pad, c, rest, rfl, hpad, hc⟩
  · rw [trim, trimStart_of_isPadding h, trimEnd_of_isPadding h]
    rfl
  · rw [trim, trimStart_append_cons hpad hc, trimEnd_append_cons pad hc,
      trimStart_append_cons hpad hc, trimEnd_cons hc]

/-- A trimmed text comes out of any padding. -/
theorem trim_pad {before after cs : List Char} (hbefore : IsPadding before)
    (hafter : IsPadding after) (h : trim cs = cs) : trim (before ++ cs ++ after) = cs := by
  rw [← trimStart_trimEnd, trimEnd_append hafter, trimStart_trimEnd, trim,
    trimStart_append hbefore]
  exact h

theorem trim_eq_nil_iff {cs : List Char} : trim cs = [] ↔ IsPadding cs := by
  constructor
  · intro h
    rcases isPadding_or_eq_append cs with hall | ⟨pad, c, rest, rfl, hpad, hc⟩
    · exact hall
    · rw [trim, trimStart_append_cons hpad hc, trimEnd_cons hc] at h
      cases h
  · intro h
    rw [trim, trimStart_of_isPadding h]
    rfl

/-- The first character of a trimmed text that is not empty is not blank. -/
theorem isBlank_of_trim_eq_cons {cs rest : List Char} {c : Char} (h : trim cs = c :: rest) :
    isBlank c = false := by
  rcases isPadding_or_eq_append cs with hall | ⟨pad, d, tail, rfl, hpad, hd⟩
  · rw [trim_eq_nil_iff.mpr hall] at h
    cases h
  · rw [trim, trimStart_append_cons hpad hd, trimEnd_cons hd] at h
    rw [← (List.cons.inj h).1]
    exact hd

/-- Trimming and trimming the start alone begin with the same character. -/
theorem head?_trim (cs : List Char) : (trim cs).head? = (trimStart cs).head? := by
  rcases isPadding_or_eq_append cs with hall | ⟨pad, d, tail, rfl, hpad, hd⟩
  · rw [trim_eq_nil_iff.mpr hall, trimStart_of_isPadding hall]
  · rw [trim, trimStart_append_cons hpad hd, trimEnd_cons hd]
    rfl

theorem mem_of_mem_trim {cs : List Char} {c : Char} (h : c ∈ trim cs) : c ∈ cs := by
  have hend : c ∈ trimStart cs := by
    have hmem := (List.dropWhile_suffix isBlank).subset (List.mem_reverse.mp h)
    exact List.mem_reverse.mp hmem
  exact (List.dropWhile_suffix isBlank).subset hend

theorem trimEnd_of_trim {cs : List Char} (h : trim cs = cs) : trimEnd cs = cs := by
  cases cs with
  | nil => rfl
  | cons c rest =>
    have hc := isBlank_of_trim_eq_cons h
    rw [trim, trimStart, List.dropWhile_cons_of_neg (by simp [hc])] at h
    exact h

end LayeredSettings.Text
