/-!
# Members

The named parts of a value, in the order in which they are listed: names that are array indices
come first, in ascending order, and then all others in the order in which they were added. The
operations keep this order, so a list made by `Members.ofList` needs no sorting when it is read.

* `get?_set`: what is set is found under its name, and all else stays;
* `get?_erase`: what is erased is not found, and all else stays.
-/

namespace LayeredSettings

/-- Named parts in listing order. -/
abbrev Members (α : Type) := List (String × α)

namespace Members

variable {α : Type}

/-- The array index that a name spells: digits without leading zeros, below 2^32 - 1. -/
def arrayIndex? (name : String) : Option Nat :=
  let digits := name.toList
  let value := digits.foldl (fun n c => 10 * n + (c.toNat - '0'.toNat)) 0
  if digits.isEmpty || digits.length > 10 || !digits.all (fun c => '0' ≤ c && c ≤ '9') then none
  else if digits.head? = some '0' && digits.length > 1 then none
  else if value < 4294967295 then some value
  else none

/-- The part of a name. -/
def get? (members : Members α) (name : String) : Option α := members.lookup name

/-- Whether there is a part of this name. -/
def has (members : Members α) (name : String) : Bool := members.any (·.1 == name)

/-- The names in listing order. -/
def names (members : Members α) : List String := members.map (·.1)

/-- Adds a new index before the first name that is not a smaller index. -/
def insertIndex (members : Members α) (index : Nat) (name : String) (part : α) : Members α :=
  match members with
  | [] => [(name, part)]
  | entry :: rest =>
    match arrayIndex? entry.1 with
    | some i => if i < index then entry :: insertIndex rest index name part
        else (name, part) :: entry :: rest
    | none => (name, part) :: entry :: rest

/-- Gives a name that is present a new part, in its place. -/
def replace (members : Members α) (name : String) (part : α) : Members α :=
  members.map fun entry => if entry.1 == name then (name, part) else entry

/-- Sets the part of a name: a name that is present keeps its place. -/
def set (members : Members α) (name : String) (part : α) : Members α :=
  if has members name then replace members name part
  else match arrayIndex? name with
    | some index => insertIndex members index name part
    | none => members ++ [(name, part)]

/-- Without the part of a name. -/
def erase (members : Members α) (name : String) : Members α :=
  members.filter fun entry => entry.1 != name

/-- The members of a list of entries, set one after the other. -/
def ofList (entries : List (String × α)) : Members α :=
  entries.foldl (fun members entry => set members entry.1 entry.2) []

@[simp] theorem names_replace (members : Members α) (name : String) (part : α) :
    names (replace members name part) = names members := by
  induction members with
  | nil => rfl
  | cons entry rest ih =>
    have hcons : names (replace (entry :: rest) name part) =
        (if entry.1 == name then (name, part) else entry).1 :: names (replace rest name part) := rfl
    rw [hcons, ih]
    by_cases h : entry.1 = name
    · simp [names, h]
    · simp [names, h]

/-! ## Looking up -/

theorem get?_cons (entry : String × α) (rest : Members α) (name : String) :
    get? (entry :: rest) name = if name = entry.1 then some entry.2 else get? rest name := by
  obtain ⟨first, part⟩ := entry
  have hcons : get? ((first, part) :: rest) name =
      match name == first with
      | true => some part
      | false => get? rest name := rfl
  rw [hcons]
  by_cases h : name = first
  · simp [h]
  · have hne : (name == first) = false := by simpa using h
    simp [h, hne]

theorem has_eq_isSome (members : Members α) (name : String) :
    has members name = (get? members name).isSome := by
  induction members with
  | nil => rfl
  | cons entry rest ih =>
    have hcons : has (entry :: rest) name = ((entry.1 == name) || has rest name) := rfl
    rw [hcons, ih, get?_cons]
    by_cases h : name = entry.1
    · simp [h]
    · simp [h, Ne.symm h]

/-- The new part is found under its name, and all others stay. -/
theorem get?_insertIndex (members : Members α) (index : Nat) (name other : String) (part : α)
    (hnew : get? members name = none) :
    get? (insertIndex members index name part) other =
      if other = name then some part else get? members other := by
  induction members with
  | nil => simp [insertIndex, get?_cons]
  | cons entry rest ih =>
    rw [get?_cons] at hnew
    have hne : name ≠ entry.1 := by intro h; simp [h] at hnew
    rw [if_neg hne] at hnew
    unfold insertIndex
    split
    · split
      · rw [get?_cons, get?_cons, ih hnew]
        by_cases h : other = entry.1
        · simp [h, Ne.symm hne]
        · simp [h]
      · simp [get?_cons]
    · simp [get?_cons]

theorem get?_replace (members : Members α) (name other : String) (part : α) :
    get? (replace members name part) other =
      if other = name ∧ has members name then some part else get? members other := by
  induction members with
  | nil => simp [replace, has]
  | cons entry rest ih =>
    have hcons : replace (entry :: rest) name part =
        (if entry.1 == name then (name, part) else entry) :: replace rest name part := rfl
    have hhas : has (entry :: rest) name = ((entry.1 == name) || has rest name) := rfl
    rw [hcons, hhas, get?_cons, get?_cons, ih]
    by_cases h : entry.1 = name
    · by_cases ho : other = name <;> simp [h, ho]
    · by_cases ho : other = entry.1
      · simp [h, ho]
      · simp [h, ho]

theorem get?_append_of_none (members : Members α) (name other : String) (part : α)
    (hnew : get? members name = none) :
    get? (members ++ [(name, part)]) other =
      if other = name then some part else get? members other := by
  induction members with
  | nil => simp [get?_cons]
  | cons entry rest ih =>
    rw [get?_cons] at hnew
    have hne : name ≠ entry.1 := by intro h; simp [h] at hnew
    rw [if_neg hne] at hnew
    rw [List.cons_append, get?_cons, get?_cons, ih hnew]
    by_cases h : other = entry.1
    · simp [h, Ne.symm hne]
    · simp [h]

/-- What is set is found under its name, and all else stays. -/
theorem get?_set (members : Members α) (name other : String) (part : α) :
    get? (set members name part) other =
      if other = name then some part else get? members other := by
  unfold set
  by_cases h : has members name
  · simp [h, get?_replace]
  · have hnew : get? members name = none := by simpa [has_eq_isSome] using h
    rw [if_neg h]
    split
    · exact get?_insertIndex members _ name other part hnew
    · exact get?_append_of_none members name other part hnew

/-- What is erased is not found, and all else stays. -/
theorem get?_erase (members : Members α) (name other : String) :
    get? (erase members name) other = if other = name then none else get? members other := by
  induction members with
  | nil => simp [erase, get?]
  | cons entry rest ih =>
    have hcons : erase (entry :: rest) name =
        if entry.1 != name then entry :: erase rest name else erase rest name := by
      by_cases h : entry.1 = name <;> simp [erase, h]
    rw [hcons, get?_cons]
    by_cases h : entry.1 = name
    · by_cases ho : other = name
      · simpa [h, ho] using ih
      · simpa [h, ho] using ih
    · by_cases ho : other = entry.1
      · simp [h, ho, get?_cons]
      · simp [h, ho, ih, get?_cons]

end Members

end LayeredSettings
