import LayeredSettings.Ini.Nesting
import LayeredSettings.Text.Case

/-!
# Sections

The tree of a sectioned text, laid out flat: a node below others is the section of all their names
with dots between them. The options of a section are its members that hold none themselves, under
their lower case names; a node without options is a section only if there is nothing below it.
-/

namespace LayeredSettings.Sectioned

/-- The options of a section, by lower case name. -/
abbrev Options := Members String

/-- Sections by name. -/
abbrev Sections := Members Options

/-- What the members of a node hold. -/
structure Gathered where
  /-- All sections, those below the node included. -/
  sections : Sections
  /-- The node's own options. -/
  options : Options
  /-- Whether there is a section below the node. -/
  nested : Bool

/-- The sections with that of a node, of which everything is gathered. -/
def Gathered.close (g : Gathered) (name : String) : Sections :=
  if g.options.isEmpty && g.nested then g.sections else g.sections.set name g.options

open Ini in
/-- Gathers the members of the section of a name. -/
def gather (name : String) (g : Gathered) : List (String × Node) → Except StructureFault Gathered
  | [] => .ok g
  | (key, .object _ members) :: rest =>
    match gather (name ++ "." ++ key) { sections := g.sections, options := [], nested := false }
        members with
    | .ok below =>
      gather name { g with sections := below.close (name ++ "." ++ key), nested := true } rest
    | .error e => .error e
  | (key, node) :: rest =>
    match node.optionText with
    | .ok value => gather name { g with options := g.options.set (Text.lowerCase key) value } rest
    | .error e => .error e

/-- The sections with those of a node and of all below it. -/
def addSection (sections : Sections) (name : String) (members : Members Ini.Node) :
    Except StructureFault Sections :=
  (gather name { sections, options := [], nested := false } members).map (·.close name)

end LayeredSettings.Sectioned
