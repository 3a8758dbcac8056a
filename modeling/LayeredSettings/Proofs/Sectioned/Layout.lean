import LayeredSettings.Proofs.Ini.Line
import LayeredSettings.Proofs.Text.Lines
import LayeredSettings.Sectioned.Document
import Mathlib.Data.List.Forall2
import Mathlib.Tactic.MkIffOfInductiveProp

/-!
# How sections are written

Sections as a user means them, and all the ways in which they can be laid out in a file: headers
with blanks about, both delimiters, values that go on over indented lines, blank lines and comments
between all these, and line ends of both kinds.

* `Block`, `Entry` — a section with its name, an option with its name and the lines of its value;
* `LaysOut`, `IsFileOf` — the lines, and the texts, that say the same as some blocks;
* `LaysOut.append` — layouts of parts make up a layout of the whole.
-/

namespace LayeredSettings.Sectioned

/-! ## Blocks -/

/-- An option as it is written: its name, the first line of its value and the lines that continue
it. -/
structure Entry where
  key : List Char
  first : List Char
  more : List (List Char)
deriving DecidableEq

namespace Entry

/-- The name of an option. -/
def name (e : Entry) : String := String.ofList e.key

/-- The value of an option: its lines, with line feeds between them. -/
def value (e : Entry) : List Char := ['\n'].intercalate (e.first :: e.more)

/-- The value of an option as a string. -/
def text (e : Entry) : String := String.ofList e.value

/-- What a name and the lines of a value have to be like for an option to be read as it is meant. -/
@[mk_iff]
structure Plain (e : Entry) : Prop where
  key_trimmed : Text.trim e.key = e.key
  key_ne_nil : e.key ≠ []
  key_start : ∀ c ∈ e.key.head?, c ≠ '#' ∧ c ≠ ';' ∧ c ≠ '['
  key_chars : ∀ c ∈ e.key, isDelimiter c = false
  key_unbracketed : ¬ ['[', ']'] <:+ e.key
  key_unreserved : e.name ≠ "__proto__"
  lines_trimmed : ∀ line ∈ e.first :: e.more, Text.trim line = line
  lines_chars : ∀ line ∈ e.first :: e.more, ∀ c ∈ line, Text.isLineTerminator c = false
  more_start : ∀ line ∈ e.more, line ≠ [] ∧ isComment line = false

instance (e : Entry) : Decidable e.Plain :=
  -- the characters of a text are tried, not all that there are
  letI (p : Char → Prop) [DecidablePred p] (cs : List Char) : Decidable (∀ c ∈ cs, p c) :=
    List.decidableBAll p cs
  letI (p : Char → Prop) [DecidablePred p] (c? : Option Char) : Decidable (∀ c ∈ c?, p c) :=
    Option.decidableForallMem c?
  decidable_of_iff' _ (plain_iff e)

end Entry

/-- A section as it is written: its name and its options. -/
structure Block where
  name : String
  entries : List Entry
deriving DecidableEq

namespace Block

/-- The parts of the name between its dots. -/
def path (b : Block) : List String := Text.splitAt '.' b.name

/-- What a name and options have to be like for a section to be read as it is meant. -/
@[mk_iff]
structure Plain (b : Block) : Prop where
  name_trimmed : Text.trim b.name.toList = b.name.toList
  name_chars : ∀ c ∈ b.name.toList, c ≠ ']' ∧ c ≠ '\\' ∧ c ≠ ';' ∧ c ≠ '#' ∧ c ≠ '"' ∧ c ≠ '\''
  path_parts : ∀ part ∈ b.path, part ≠ "" ∧ part ≠ "__proto__"
  unreserved : b.name ≠ reservedSection
  entries_plain : ∀ e ∈ b.entries, e.Plain
  keys_distinct : (b.entries.map fun e => Text.lowerCase e.name).Nodup

instance (b : Block) : Decidable b.Plain :=
  letI (p : Char → Prop) [DecidablePred p] (cs : List Char) : Decidable (∀ c ∈ cs, p c) :=
    List.decidableBAll p cs
  decidable_of_iff' _ (plain_iff b)

end Block

/-- Sections of different names, each of which can be read as it is meant. -/
@[mk_iff]
structure PlainBlocks (blocks : List Block) : Prop where
  plain : ∀ b ∈ blocks, b.Plain
  names_distinct : (blocks.map (·.name)).Nodup

instance (blocks : List Block) : Decidable (PlainBlocks blocks) :=
  decidable_of_iff' _ (plainBlocks_iff blocks)

/-! ## Layouts -/

/-- What the lines of a file say. -/
inductive Statement where
  | header (name : String)
  | entry (e : Entry)

/-- What the lines of a section say. -/
def Block.statements (b : Block) : List Statement := .header b.name :: b.entries.map .entry

/-- A line that says nothing: it is blank or a comment. -/
def IsIdle (line : List Char) : Prop :=
  Text.IsPadding line ∨ isComment (Text.trim line) = true

/-- An unindented header, with blanks around its name and at its end. -/
def IsHeader (name : String) (line : List Char) : Prop :=
  ∃ before after rest, Text.IsPadding before ∧ Text.IsPadding after ∧ Text.IsPadding rest ∧
    line = '[' :: (before ++ name.toList ++ after ++ ']' :: rest)

/-- The unindented first line of an option, with blanks around its delimiter and at its end. -/
def BeginsEntry (e : Entry) (line : List Char) : Prop :=
  ∃ before delimiter after rest, Text.IsPadding before ∧ isDelimiter delimiter = true ∧
    Text.IsPadding after ∧ Text.IsPadding rest ∧
    line = e.key ++ before ++ delimiter :: (after ++ e.first ++ rest)

/-- An indented line that continues a value. -/
def ContinuesEntry (piece line : List Char) : Prop :=
  ∃ indent rest, indent ≠ [] ∧ Text.IsPadding indent ∧ Text.IsPadding rest ∧
    line = indent ++ piece ++ rest

/-- The lines that say some statements in their order. Idle lines may stand anywhere but within the
value of an option. -/
inductive LaysOut : List Statement → List (List Char) → Prop
  | nil : LaysOut [] []
  | idle {statements : List Statement} {line : List Char} {lines : List (List Char)} :
      IsIdle line → LaysOut statements lines → LaysOut statements (line :: lines)
  | header {name : String} {statements : List Statement} {line : List Char}
      {lines : List (List Char)} :
      IsHeader name line → LaysOut statements lines →
        LaysOut (.header name :: statements) (line :: lines)
  | entry {e : Entry} {statements : List Statement} {line : List Char}
      {more lines : List (List Char)} :
      BeginsEntry e line → List.Forall₂ ContinuesEntry e.more more → LaysOut statements lines →
        LaysOut (.entry e :: statements) (line :: (more ++ lines))

/-- The texts of blocks: lines that lay them out, ended in any way. -/
def IsFileOf (blocks : List Block) (text : List Char) : Prop :=
  ∃ lines, Text.Ending lines text ∧ LaysOut (blocks.flatMap Block.statements) lines

/-- An option whose value is on one line. -/
theorem LaysOut.single {e : Entry} {statements : List Statement} {line : List Char}
    {lines : List (List Char)} (hmore : e.more = []) (hline : BeginsEntry e line)
    (h : LaysOut statements lines) : LaysOut (.entry e :: statements) (line :: lines) := by
  have hnone : List.Forall₂ ContinuesEntry e.more [] := by
    rw [hmore]
    exact .nil
  exact .entry hline hnone h

/-- Laying out one after the other is laying out both. -/
theorem LaysOut.append {first second : List Statement} {lines more : List (List Char)}
    (h : LaysOut first lines) (hmore : LaysOut second more) :
    LaysOut (first ++ second) (lines ++ more) := by
  induction h with
  | nil => exact hmore
  | idle hline _ ih => exact .idle hline ih
  | header hline _ ih => exact .header hline ih
  | @entry e statements line continued lines hline hmore _ ih =>
    have hassoc :
        line :: (continued ++ lines) ++ more = line :: (continued ++ (lines ++ more)) := by
      simp
    rw [hassoc]
    exact .entry hline hmore ih

end LayeredSettings.Sectioned
