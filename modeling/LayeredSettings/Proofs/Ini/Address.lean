import LayeredSettings.Ini.Nesting
import LayeredSettings.Proofs.Text.Lines

/-!
# Addresses

The name of a section without backslashes is divided at all of its dots, and the section goes where
the parts lead. One without dots stays where it is.

* `Address.of?_eq_none` — a name without dots has no address;
* `Address.exists_of?_eq_some` — the parts of a name with dots are its address.
-/

namespace LayeredSettings.Ini

/-- Without backslashes, a name is divided at all of its dots. -/
theorem splitName_eq {part cs : List Char} (hpart : '\\' ∉ part) (hcs : '\\' ∉ cs) :
    splitName part cs = (cs.splitOn '.').modifyHead (part.reverse ++ ·) := by
  induction cs generalizing part with
  | nil => simp [splitName]
  | cons c rest ih =>
    rw [List.mem_cons, not_or] at hcs
    have hhead : part.head? ≠ some '\\' := fun h => hpart (List.mem_of_head? h)
    obtain ⟨first, others, hsplit⟩ := List.exists_cons_of_ne_nil (List.splitOn_ne_nil '.' rest)
    rw [splitName, List.splitOn_cons_eq_if_modifyHead]
    by_cases hc : c = '.'
    · rw [if_pos ⟨hc, hhead⟩, if_pos (by simpa using hc), ih List.not_mem_nil hcs.2, hsplit]
      simp
    · have hcons : '\\' ∉ c :: part := by
        rw [List.mem_cons, not_or]
        exact ⟨hcs.1, hpart⟩
      rw [if_neg (fun h => hc h.1), if_neg (by simpa using hc), ih hcons hcs.2, hsplit]
      simp

theorem unescapeDots_of_not_mem {cs : List Char} (h : '\\' ∉ cs) : unescapeDots cs = cs := by
  induction cs with
  | nil => rfl
  | cons c rest ih =>
    rw [List.mem_cons, not_or] at h
    rw [unescapeDots, ih h.2]
    rintro tail rfl rfl
    exact h.1 rfl

/-- The address of a name without backslashes, by the pieces between its dots. -/
theorem Address.of?_eq {name : String} (hback : '\\' ∉ name.toList)
    {pieces : List (List Char)} {last : List Char}
    (hpieces : name.toList.splitOn '.' = pieces ++ [last])
    (hparts : ∀ part ∈ Text.splitAt '.' name, part ≠ "__proto__") :
    Address.of? name =
      if pieces = [] then none
      else some { path := pieces.map String.ofList, name := String.ofList last } := by
  have hsplit : splitName [] name.toList = pieces ++ [last] := by
    rw [splitName_eq List.not_mem_nil hback, hpieces]
    cases pieces with
    | _ => rfl
  have hlast : unescapeDots last = last := by
    apply unescapeDots_of_not_mem
    intro hmem
    have hpiece : last ∈ name.toList.splitOn '.' := by simp [hpieces]
    exact hback (Text.mem_of_mem_splitOn hpiece _ hmem).1
  have hpath : (pieces.map String.ofList).filter (· ≠ "__proto__") = pieces.map String.ofList := by
    rw [List.filter_eq_self]
    intro part hpart
    have hmem : part ∈ Text.splitAt '.' name := by
      rw [Text.splitAt, hpieces, List.map_append]
      exact List.mem_append_left _ hpart
    simpa using hparts part hmem
  simp only [of?, hsplit, List.getLast?_append, List.getLast?_singleton, List.dropLast_concat,
    hpath, Option.some_or, Option.getD_some, hlast, List.map_eq_nil_iff, and_true]

theorem splitName_of_not_mem (part : List Char) {cs : List Char} (h : '.' ∉ cs) :
    splitName part cs = [part.reverse ++ cs] := by
  induction cs generalizing part with
  | nil => simp [splitName]
  | cons c rest ih =>
    rw [List.mem_cons, not_or] at h
    rw [splitName, if_neg fun hdot => h.1 hdot.1.symm, ih (c :: part) h.2]
    simp

theorem unescapeDots_of_dot_not_mem {cs : List Char} (h : '.' ∉ cs) : unescapeDots cs = cs := by
  induction cs with
  | nil => rfl
  | cons c rest ih =>
    rw [List.mem_cons, not_or] at h
    rw [unescapeDots, ih h.2]
    rintro tail - rfl
    exact h.2 List.mem_cons_self

/-- A name without dots has no address. -/
theorem Address.of?_eq_none {name : String} (hdot : '.' ∉ name.toList) :
    Address.of? name = none := by
  simp [of?, splitName_of_not_mem [] hdot, unescapeDots_of_dot_not_mem hdot]

/-- The parts of a name with dots are its address. -/
theorem Address.exists_of?_eq_some {name : String} (hback : '\\' ∉ name.toList)
    (hdot : '.' ∈ name.toList) (hparts : ∀ part ∈ Text.splitAt '.' name, part ≠ "__proto__") :
    ∃ a, Address.of? name = some a ∧ a.place = Text.splitAt '.' name := by
  obtain ⟨pieces, last, hpieces⟩ :=
    (List.eq_nil_or_concat _).resolve_left (List.splitOn_ne_nil '.' name.toList)
  rw [List.concat_eq_append] at hpieces
  have hne : pieces ≠ [] := by
    -- a single piece is the name itself, which has a dot
    rintro rfl
    have hname : ['.'].intercalate (name.toList.splitOn '.') = name.toList :=
      List.intercalate_splitOn '.'
    have hpiece : last ∈ name.toList.splitOn '.' := by simp [hpieces]
    rw [hpieces] at hname
    have hlast : last = name.toList := by simpa using hname
    exact (Text.mem_of_mem_splitOn hpiece '.' (hlast ▸ hdot)).2 rfl
  refine ⟨{ path := pieces.map String.ofList, name := String.ofList last }, ?_, ?_⟩
  · rw [Address.of?_eq hback hpieces hparts, if_neg hne]
  · simp [place, Text.splitAt, hpieces]

/-- Only where there is a dot is a name without its backslashes another. -/
theorem dot_mem_unescapeDots {cs : List Char} (h : unescapeDots cs ≠ cs) :
    '.' ∈ unescapeDots cs := by
  fun_induction unescapeDots cs with
  | case1 => exact absurd rfl h
  | case2 rest ih => exact List.mem_cons_self
  | case3 c rest hescaped ih =>
    refine List.mem_cons_of_mem c (ih fun heq => h ?_)
    rw [heq]

/-- A section that moves to the top moves to a name with a dot. -/
theorem Address.dot_mem_name {name : String} {a : Address} (h : Address.of? name = some a)
    (hpath : a.path = []) : '.' ∈ a.name.toList := by
  simp only [of?] at h
  split at h
  · cases h
  · rename_i hother
    obtain rfl := Option.some.inj h
    rw [String.toList_ofList]
    exact dot_mem_unescapeDots fun heq => hother ⟨hpath, heq⟩

end LayeredSettings.Ini
