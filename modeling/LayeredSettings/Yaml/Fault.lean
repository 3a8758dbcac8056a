/-!
# What can be wrong with a YAML text

One cause for each way in which a text fails to be one YAML document.
-/

namespace LayeredSettings.Yaml

/-- Why a text is not a YAML document. -/
inductive Fault where
  | nullByte
  | unprintable
  | tabIndentation
  | lineBreakExpected
  | unclosedQuote
  | badEscape
  | badBlockHeader
  | missingIndentation
  | missingComma
  | missingEntry
  | unclosedCollection
  | entryIndentation
  | missingKey
  | missingColon
  | missingSpace
  | multilineKey
  | duplicateKey
  | compositeKey
  | unmergeable
  | repeatedProperty
  | namelessAnchor
  | unknownAlias
  | aliasWithProperties
  | badTag
  | unknownTag
  | unresolvedTag
  | badDirective
  | endExpected
  | severalDocuments
  | tooDeep
deriving DecidableEq, Repr

end LayeredSettings.Yaml
