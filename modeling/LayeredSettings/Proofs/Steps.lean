/-!
# Steps that may fail

What can be said of a run of steps from what its steps do.

* `bind_eq_ok`, `map_eq_ok` — a run that succeeds has a result in between;
* `foldlM_keeps`, `foldlM_passes`, `foldlM_isOk`, `exists_mapM_bind` — runs over a list.
-/

namespace LayeredSettings

theorem bind_eq_ok {ε α β : Type} {x : Except ε α} {f : α → Except ε β} {r : β}
    (h : (x >>= f) = .ok r) : ∃ a, x = .ok a ∧ f a = .ok r := by
  cases x with
  | error e => cases h
  | ok a => exact ⟨a, rfl, h⟩

theorem map_eq_ok {ε α β : Type} {f : α → β} {x : Except ε α} {r : β} (h : x.map f = .ok r) :
    ∃ a, x = .ok a ∧ f a = r := by
  cases x with
  | error e => cases h
  | ok a => exact ⟨a, rfl, Except.ok.inj h⟩

section

variable {ε α σ : Type} {f : σ → α → Except ε σ} {steps : List α} {s final : σ}

/-- What every step keeps is kept by a run. -/
theorem foldlM_keeps {q : σ → Prop}
    (hstep : ∀ step ∈ steps, ∀ s s', q s → f s step = .ok s' → q s') (h : q s)
    (hrun : steps.foldlM f s = .ok final) : q final := by
  induction steps generalizing s with
  | nil =>
    obtain rfl := Except.ok.inj hrun
    exact h
  | cons step rest ih =>
    rw [List.foldlM_cons] at hrun
    obtain ⟨next, hnext, hrest⟩ := bind_eq_ok hrun
    exact ih (fun other hother => hstep other (List.mem_cons_of_mem step hother))
      (hstep step List.mem_cons_self s next h hnext) hrest

/-- A run that passes a step has a state before and one after it. -/
theorem foldlM_passes {before after : List α} {step : α}
    (hrun : (before ++ step :: after).foldlM f s = .ok final) :
    ∃ mid next, before.foldlM f s = .ok mid ∧ f mid step = .ok next ∧
      after.foldlM f next = .ok final := by
  rw [List.foldlM_append] at hrun
  obtain ⟨mid, hmid, hrest⟩ := bind_eq_ok hrun
  rw [List.foldlM_cons] at hrest
  obtain ⟨next, hnext, hafter⟩ := bind_eq_ok hrest
  exact ⟨mid, next, hmid, hnext, hafter⟩

/-- A run succeeds if each step does from what the steps before it keep. What is kept may tell how
many steps are still to come. -/
theorem foldlM_isOk {q : List α → σ → Prop}
    (hstep : ∀ step rest s, q (step :: rest) s → ∃ s', f s step = .ok s' ∧ q rest s')
    (h : q steps s) : ∃ final, steps.foldlM f s = .ok final ∧ q [] final := by
  induction steps generalizing s with
  | nil => exact ⟨s, rfl, h⟩
  | cons step rest ih =>
    obtain ⟨next, hnext, hkept⟩ := hstep step rest s h
    rw [List.foldlM_cons, hnext]
    exact ih hkept

end

/-- Steps that all succeed have results, and what follows them goes on with these. -/
theorem exists_mapM_bind {ε α β γ : Type} {f : α → Except ε β} {g : List β → Except ε γ}
    {steps : List α} (h : ∀ step ∈ steps, ∃ b, f step = .ok b)
    (hg : ∀ results, ∃ c, g results = .ok c) : ∃ c, (steps.mapM f).bind g = .ok c := by
  induction steps generalizing g with
  | nil => exact hg []
  | cons step rest ih =>
    obtain ⟨b, hb⟩ := h step List.mem_cons_self
    obtain ⟨c, hc⟩ := ih (fun other hother => h other (List.mem_cons_of_mem step hother))
      fun results => hg (b :: results)
    refine ⟨c, ?_⟩
    rw [List.mapM_cons, hb, ← hc]
    cases rest.mapM f with
    | error e => rfl
    | ok results => rfl

end LayeredSettings
