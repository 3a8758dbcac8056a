import LayeredSettings.Json.Quote
import LayeredSettings.Text.Lines

/-!
# Quoting the options of a sectioned file

In a configuration file an equals sign or a colon stands between an option and its value, comment
signs and quotation marks in a value belong to it, and an indented line continues the value above.
`normalize` brings such a file into the form of a plain sectioned text: it writes every option on
one line, its name and its value quoted, and leaves all other lines as they are.
-/

namespace LayeredSettings.Sectioned

/-- An option with the text of its value so far. -/
structure OptionText where
  key : List Char
  value : List Char
deriving DecidableEq, Repr

namespace OptionText

/-- The line of an option in the plain form. -/
def line (o : OptionText) : List Char := Json.quote o.key ++ '=' :: Json.quote o.value

/-- Adds a line to the value. -/
def extend (o : OptionText) (continuation : List Char) : OptionText :=
  { o with value := o.value ++ '\n' :: continuation }

end OptionText

/-- Whether a trimmed line is a comment. -/
def isComment (trimmed : List Char) : Bool :=
  trimmed.head? == some '#' || trimmed.head? == some ';'

/-- Whether a line is indented. -/
def isIndented (line : List Char) : Bool := line.head?.any Text.isBlank

/-- Whether a line continues the value of an option above it. -/
def isContinuation (line : List Char) : Bool :=
  let trimmed := Text.trim line
  !trimmed.isEmpty && !isComment trimmed && isIndented line

/-- Whether a character stands between an option and its value. -/
def isDelimiter (c : Char) : Bool := c == '=' || c == ':'

/-- Splits a trimmed line at its first delimiter, without the white space around it. The value is
the rest of the line, if that is one line. -/
def splitOption? (trimmed : List Char) : Option OptionText :=
  match trimmed.dropWhile fun c => !isDelimiter c with
  | [] => none
  | _ :: rest =>
    let value := Text.trimStart rest
    if value.any Text.isLineTerminator then none
    else some { key := Text.trimEnd (trimmed.takeWhile fun c => !isDelimiter c), value }

/-- The option that begins on a line. -/
def option? (line : List Char) : Option OptionText :=
  let trimmed := Text.trim line
  if trimmed.isEmpty || isComment trimmed || trimmed.head? == some '[' then none
  else splitOption? trimmed

/-- The lines in the plain form, after an option that may still be continued. -/
def normalizeFrom (pending : Option OptionText) : List (List Char) → List (List Char)
  | [] => pending.toList.map (·.line)
  | line :: rest =>
    match pending with
    | some o =>
      if isContinuation line then normalizeFrom (some (o.extend (Text.trim line))) rest
      else o.line :: match option? line with
        | some next => normalizeFrom (some next) rest
        | none => line :: normalizeFrom none rest
    | none =>
      match option? line with
      | some next => normalizeFrom (some next) rest
      | none => line :: normalizeFrom none rest

/-- The lines of a text in the plain form. -/
def normalizedLines (text : List Char) : List (List Char) := normalizeFrom none (Text.lines text)

/-- A text in the plain form. -/
def normalize (text : List Char) : List Char := ['\n'].intercalate (normalizedLines text)

end LayeredSettings.Sectioned
