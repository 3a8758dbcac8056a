import LayeredSettings.Ini.Scalar

/-!
# Lines of a sectioned text

A line is the header of a section, an option with or without a value, or nothing that counts:
blank, a comment, or without a form.
-/

namespace LayeredSettings.Ini

/-- What a line says. -/
inductive Line where
  /-- The options that follow belong to this section. -/
  | header (name : Value)
  /-- An option and its value. -/
  | option (key value : Value)

/-- The value of an option: the texts of the three constants stand for them. -/
def constant (v : Value) : Value :=
  match v with
  | .str s =>
    if s = "true" then .bool true
    else if s = "false" then .bool false
    else if s = "null" then .null
    else v
  | v => v

/-- The name of a header that is the whole line. -/
def headerName? : List Char → Option (List Char)
  | '[' :: rest =>
    let name := rest.takeWhile (· ≠ ']')
    match rest.dropWhile (· ≠ ']') with
    | ']' :: tail => if tail.all Text.isBlank then some name else none
    | _ => none
  | _ => none

/-- Reads a line. -/
def Line.read? (line : List Char) : Option Line :=
  match Text.trimStart line with
  | [] => none
  | c :: _ =>
    if c = ';' ∨ c = '#' then none
    else match headerName? line with
      | some name => some (.header (readScalar name))
      | none =>
        let key := line.takeWhile (· ≠ '=')
        if key.isEmpty then none
        else match line.dropWhile (· ≠ '=') with
          | [] => some (.option (readScalar key) (.bool true))
          | _ :: value =>
            if value.any Text.isLineTerminator then none
            else some (.option (readScalar key) (constant (readScalar value)))

/-- The lines of a text. Every line feed and carriage return ends one. -/
def splitLines (text : List Char) : List (List Char) :=
  text.splitOnP fun c => c == '\n' || c == '\r'

/-- What the lines of a text say, in order. -/
def readLines (text : List Char) : List Line := (splitLines text).filterMap Line.read?

end LayeredSettings.Ini
