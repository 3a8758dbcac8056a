import LayeredSettings.Text.Lines

/-!
# Paths

A path is text with slashes. `normalize` removes what a path says without meaning: doubled slashes,
the current directory, and a directory that is left again right away. It does not ask whether the
directories exist.
-/

namespace LayeredSettings.Path

/-- Whether a path starts at the root. -/
def isAbsolute (path : String) : Bool := path.toList.head? == some '/'

/-- The names between the slashes of a path. -/
def segments (path : String) : List String := Text.splitAt '/' path

/-- Adds a segment to the names, backwards, that lead to a directory. Above the root there is
nothing; above a relative path there is its parent. -/
def step (absolute : Bool) (names : List String) (segment : String) : List String :=
  if segment = "" ∨ segment = "." then names
  else if segment = ".." then
    match names with
    | [] => if absolute then [] else [".."]
    | name :: rest => if name = ".." then ".." :: names else rest
  else segment :: names

/-- The names of a path in its shortest form. -/
def names (path : String) : List String :=
  ((segments path).foldl (step (isAbsolute path)) []).reverse

/-- The shortest form of a path; a slash at its end is kept. -/
def normalize (path : String) : String :=
  if path = "" then "."
  else
    let body := Text.joinWith '/' (names path)
    let endsInSlash := path.toList.getLast? == some '/'
    if isAbsolute path then
      if body = "" then "/" else "/" ++ body ++ (if endsInSlash then "/" else "")
    else if body = "" then (if endsInSlash then "./" else ".")
    else body ++ (if endsInSlash then "/" else "")

/-- Joins paths with slashes, passing over empty ones. -/
def join (paths : List String) : String :=
  normalize (Text.joinWith '/' (paths.filter (· ≠ "")))

/-- The absolute path that a path names as seen from the directories, the innermost of which comes
last. -/
def resolve (directories : List String) (path : String) : String :=
  let whole := (directories ++ [path]).foldl
    (fun whole next =>
      if next = "" then whole else if isAbsolute next then next else whole ++ "/" ++ next) "/"
  "/" ++ Text.joinWith '/' (names whole)

end LayeredSettings.Path
