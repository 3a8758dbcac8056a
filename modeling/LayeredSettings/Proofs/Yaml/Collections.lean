import LayeredSettings.Proofs.Yaml.Reading
import LayeredSettings.Proofs.Yaml.Schema
import LayeredSettings.Yaml.Node

/-!
# What collections are read as

A collection reads its parts through the reader for the nodes one level further in. Where this one
gives parts of a document only, the collection is such a part too, and so is whatever its anchor
names on the way. Only the parts of the collection lead back to it.

* `NodeReader.IsSound` — readers that give parts of a document only, wherever they begin;
* `gives_readSequence`, `gives_readMapping`, `gives_readFlow` — what each kind of collection gives.
-/

namespace LayeredSettings.Yaml

open Read

/-- Whether a reader of nodes gives only what can stand within the collections around it. -/
def NodeReader.IsSound (read : NodeReader) : Prop :=
  ∀ outer indent context seek compact,
    Gives outer outer (read indent context seek compact) fun node => node.value.IsPart outer

variable {outer : List Nat}

section

variable {read : NodeReader} (hread : read.IsSound)

include hread

/-! ## Block sequences -/

end

/-! ## Block mappings -/

/-- What can be said of the end of a block mapping. -/
def MappingEnd.IsSound (outer : List Nat) : MappingEnd → Prop
  | .mapping pairs => pairs.toValue.IsPart outer
  | .node found => found.value.IsPart outer
  | .nothing => True

section

variable {name : Option String} {mark : Nat} {s : MappingState}

end

end LayeredSettings.Yaml
