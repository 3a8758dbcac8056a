import LayeredSettings.Ini.Tree

/-!
# Nesting

A section whose name has dots is moved below the sections that the parts of its name lead to, which
are made where they are missing. A backslash before a dot keeps it from dividing the name. Sections
move one after the other in the order of their names in the tree; all names that were moved from are
free only after the last move, and until then lead to the section where it now is.
-/

namespace LayeredSettings.Ini

/-- Splits a name at the dots that no backslash stands before. `part` is the part so far,
backwards. -/
def splitName (part : List Char) : List Char → List (List Char)
  | [] => [part.reverse]
  | c :: rest =>
    if c = '.' ∧ part.head? ≠ some '\\' then part.reverse :: splitName [] rest
    else splitName (c :: part) rest

/-- A name with its dots without backslashes. -/
def unescapeDots : List Char → List Char
  | [] => []
  | '\\' :: '.' :: rest => '.' :: unescapeDots rest
  | c :: rest => c :: unescapeDots rest

/-- Where a section goes: the parts to walk, and the name at the end. -/
structure Address where
  path : List String
  name : String
deriving DecidableEq, Repr

/-- The place of an address. -/
def Address.place (a : Address) : List String := a.path ++ [a.name]

/-- The address that a name spells, if it is another than the name itself. -/
def Address.of? (name : String) : Option Address :=
  let parts := splitName [] name.toList
  let last := (parts.getLast?).getD []
  let path := (parts.dropLast.map String.ofList).filter (· ≠ "__proto__")
  let final := unescapeDots last
  if path = [] ∧ final = last then none else some { path, name := String.ofList final }

/-- Puts a node below a container. What is in the way and has no members is replaced, but null
stops the walk. -/
def Node.place (container : Node) (path : List String) (name : String) (node : Node) :
    Except StructureFault Node :=
  match path with
  | [] => container.setMember name node
  | part :: rest =>
    match container.member? part with
    | some .null => .error .memberOfNull
    | some child =>
      if child.isContainer then do container.setMember part (← child.place rest name node)
      else do container.setMember part (← Node.emptySection.place rest name node)
    | none => do container.setMember part (← Node.emptySection.place rest name node)

/-- A tree while its sections move. -/
structure Moving where
  top : Members Node
  /-- Where the section of a name has gone; nowhere if another has taken its place. -/
  homes : List (String × Option (List String))
  /-- The names that were moved from. -/
  left : List String

/-- The place that a path leads to now. -/
def Moving.current (m : Moving) (path : List String) : Option (List String) :=
  match path with
  | [] => some []
  | first :: rest =>
    match m.homes.lookup first with
    | some home => home.map (· ++ rest)
    | none => some path

/-- Where a section that stood at `home` stands once the section of `name` has moved to `place`. -/
def movedHome (name : String) (place home : List String) : Option (List String) :=
  if home.head? = some name then some (place ++ home.drop 1)
  else if place.isPrefixOf home then none
  else some home

/-- Whether a node moves: sections and objects do, and so does null. -/
def Node.isMovable : Node → Bool
  | .object _ _ | .null => true
  | _ => false

/-- Moves the section of a name to its address. -/
def Moving.move (m : Moving) (name : String) : Except StructureFault Moving :=
  match m.top.get? name, Address.of? name with
  | some node, some address =>
    if !node.isMovable then .ok m
    else match m.current address.path with
      | none => .ok { m with left := name :: m.left }
      | some path => do
        let place := path ++ [address.name]
        let homes := m.homes.map fun (old, home) => (old, home.bind (movedHome name place))
        -- a section put at the top takes the name over from one that had left it
        let homes := homes.filter fun entry => entry.1 ≠ name && [entry.1] ≠ place
        match ← (Node.object false m.top).place path address.name node with
        | .object _ top =>
          return { top, homes := (name, some place) :: homes, left := name :: m.left }
        | _ => return m
  | _, _ => .ok m

/-- The tree with every section where its name says. -/
def nest (top : Members Node) : Except StructureFault (Members Node) := do
  let m ← top.names.foldlM Moving.move { top, homes := [], left := [] }
  return m.top.filter fun entry => !m.left.contains entry.1

/-- The tree of a sectioned text. -/
def decode (text : List Char) : Except StructureFault (Members Node) :=
  (build (readLines text)).bind nest

end LayeredSettings.Ini
