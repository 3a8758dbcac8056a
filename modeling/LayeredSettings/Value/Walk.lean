import LayeredSettings.Value.Basic

/-!
# Walks

A walk follows a path of names through mappings. It ends at a value, or at a mapping that has no
member of the next name, or at a value that is no mapping although names are left.
-/

namespace LayeredSettings

/-- How a walk ends. -/
inductive Walk where
  | found (value : Value)
  | missing (name : String)
  | blocked (name : String)

/-- Walks from a value along a path. -/
def Value.walk (v : Value) : List String → Walk
  | [] => .found v
  | name :: rest =>
    if v.isMapping then
      match v.member? name with
      | some part => part.walk rest
      | none => .missing name
    else .blocked name

@[simp] theorem Value.walk_nil (v : Value) : v.walk [] = .found v := rfl

/-- A walk along two paths is a walk along the first, and on along the second from its end. -/
theorem Value.walk_append (v : Value) (p q : List String) :
    v.walk (p ++ q) = match v.walk p with
      | .found w => w.walk q
      | .missing name => .missing name
      | .blocked name => .blocked name := by
  induction p generalizing v with
  | nil => simp
  | cons name rest ih =>
    simp only [List.cons_append, Value.walk]
    split
    · cases v.member? name with
      | none => rfl
      | some part => exact ih part
    · rfl

end LayeredSettings
