import LayeredSettings.World.Path
import LayeredSettings.Text.Utf8

/-!
# File trees

The files that can be read: a directory or a file stands at each place, a place being the names
that lead to it from the root. A path is followed name by name, so that every directory it passes
through has to exist, also one that it leaves again.
-/

namespace LayeredSettings

/-- What stands at a place. -/
inductive FileNode where
  | directory
  | file (content : List UInt8)

/-- A tree of files, with the directory in which relative paths start. -/
structure FileTree where
  workingDirectory : List String
  nodes : List (List String × FileNode)

namespace FileTree

/-- What stands at a place. The root always is a directory. -/
def nodeAt? (tree : FileTree) (place : List String) : Option FileNode :=
  if place = [] then some .directory else tree.nodes.lookup place

/-- The text of the directory in which relative paths start. -/
def workingPath (tree : FileTree) : String := "/" ++ Text.joinWith '/' tree.workingDirectory

/-- Follows the segments of a path from a place. Whatever is followed further has to be a
directory. -/
def follow (tree : FileTree) (place : List String) : List String → Option (List String)
  | [] => some place
  | segment :: rest =>
    match tree.nodeAt? place with
    | some .directory =>
      if segment = "" ∨ segment = "." then follow tree place rest
      else if segment = ".." then follow tree place.dropLast rest
      else follow tree (place ++ [segment]) rest
    | _ => none

/-- The place that a path names, if all on the way to it exists. -/
def placeOf? (tree : FileTree) (path : String) : Option (List String) :=
  if path = "" ∨ path.toList.contains '\x00' then none
  else tree.follow (if Path.isAbsolute path then [] else tree.workingDirectory) (Path.segments path)

/-- What a path names. -/
def find? (tree : FileTree) (path : String) : Option FileNode :=
  (tree.placeOf? path).bind tree.nodeAt?

/-- Whether a path names anything. -/
def pathExists (tree : FileTree) (path : String) : Bool := (tree.find? path).isSome

/-- The bytes of the file that a path names. -/
def contentOf? (tree : FileTree) (path : String) : Option (List UInt8) :=
  match tree.find? path with
  | some (.file content) => some content
  | _ => none

/-- The text of the file that a path names. -/
def textOf? (tree : FileTree) (path : String) : Option (List Char) :=
  (tree.contentOf? path).map Text.Utf8.decode

/-- The place that a path names by its text alone. -/
def targetOf (tree : FileTree) (path : String) : List String :=
  Path.names (Path.resolve [tree.workingPath] path)

/-- Puts a node at a place. -/
def put (tree : FileTree) (place : List String) (node : FileNode) : FileTree :=
  { tree with nodes := (place, node) :: tree.nodes.filter (·.1 ≠ place) }

/-- Makes the directories that lead to a place. -/
def makeParents (tree : FileTree) (place : List String) : FileTree :=
  (List.range place.length).foldl
    (fun tree n =>
      let parent := place.take n
      if (tree.nodeAt? parent).isSome then tree else tree.put parent .directory) tree

/-- Puts a node at the end of a path and makes the directories on the way. -/
def write (tree : FileTree) (path : String) (node : FileNode) : FileTree :=
  let place := tree.targetOf path
  (tree.makeParents place).put place node

/-- Removes what a path names and all below it. -/
def remove (tree : FileTree) (path : String) : FileTree :=
  let place := tree.targetOf path
  { tree with nodes := tree.nodes.filter fun node => !place.isPrefixOf node.1 }

/-- The tree of a working directory with nothing in it. -/
def empty (workingDirectory : List String) : FileTree :=
  let tree : FileTree := { workingDirectory, nodes := [] }
  (tree.makeParents workingDirectory).put workingDirectory .directory

end FileTree

end LayeredSettings
