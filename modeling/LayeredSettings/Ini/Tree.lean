import LayeredSettings.Ini.Line
import LayeredSettings.Ini.Node

/-!
# Building the tree

The lines of a text build a tree of sections one after the other. A header opens its section, anew
only if there is nothing under its name yet; an option then belongs to it. A key that ends in
brackets makes its option a list, and an option that is a list takes every further value as an
item.
-/

namespace LayeredSettings.Ini

/-- Where options belong. -/
inductive Target where
  /-- To no section. -/
  | top
  /-- To the section of a name. -/
  | inSection (name : String)
  /-- To a section that is not kept. -/
  | dropped
deriving DecidableEq, Repr

/-- A tree while it is built. -/
structure Building where
  top : Members Node
  target : Target

/-- Whether a node counts as nothing when a section of its name begins. -/
def Node.isVoid : Node → Bool
  | .flag b => !b
  | .null => true
  | .number n => n.isZero
  | .text s => s = ""
  | _ => false

/-- Opens the section of a name. -/
def Building.openSection (b : Building) (name : Value) : Except StructureFault Building :=
  match name with
  | .str "__proto__" => .ok { b with target := .dropped }
  | name => do
    let name ← (Node.ofValue name).text?
    match b.top.get? name with
    | some node =>
      if node.isVoid then
        return { top := b.top.set name Node.emptySection, target := .inSection name }
      else return { b with target := .inSection name }
    | none => return { top := b.top.set name Node.emptySection, target := .inSection name }

/-- The name of an option, and whether it makes a list. -/
structure OptionName where
  name : Node
  bracketed : Bool

/-- The name that a value is. Null cannot be one, and an object that says it is long cannot
either. -/
def OptionName.of (key : Value) : Except StructureFault OptionName :=
  match key with
  | .null => .error .namelessKey
  | .str s =>
    let cs := s.toList
    if 2 < cs.length ∧ cs.drop (cs.length - 2) = ['[', ']'] then
      .ok { name := .text (String.ofList (cs.take (cs.length - 2))), bracketed := true }
    else .ok { name := .text s, bracketed := false }
  | .map members =>
    match members.lookup "length" with
    | some length => do
      match ← (Node.ofValue length).number? with
      | some n => if n.exceeds 2 then throw .namelessKey
      | none => pure ()
      return { name := .ofValue key, bracketed := false }
    | none => .ok { name := .ofValue key, bracketed := false }
  | key => .ok { name := .ofValue key, bracketed := false }

/-- Whether a name is that of a list's length, which never is a list. -/
def Node.isLength (node : Node) (name : String) : Bool :=
  match node with
  | .array _ _ => name == "length"
  | _ => false

/-- Gives a node an option. A list that is there already takes the value as an item. -/
def Node.assign (node : Node) (name : String) (bracketed : Bool) (value : Node) :
    Except StructureFault Node :=
  if node.isLength name then node.setMember name value
  else match node.member? name, bracketed with
    | some (.array length members), _ => node.setMember name (.push length members value)
    | some old, true => node.setMember name (.ofItems [old, value])
    | none, true => node.setMember name (.ofItems [value])
    | _, false => node.setMember name value

/-- Takes an option into account. -/
def Building.assign (b : Building) (key value : Value) : Except StructureFault Building := do
  let key ← OptionName.of key
  let isReserved : Bool := match key.name with
    | .text s => s == "__proto__"
    | _ => false
  if isReserved then return b
  let name ← key.name.text?
  let value := Node.ofValue value
  match b.target with
  | .dropped => return b
  | .top =>
    match ← (Node.object false b.top).assign name key.bracketed value with
    | .object _ top => return { b with top }
    | _ => return b
  | .inSection sectionName =>
    match b.top.get? sectionName with
    | some node =>
      let node ← node.assign name key.bracketed value
      return { b with top := b.top.set sectionName node }
    | none => return b

/-- Takes a line into account. -/
def Building.add (b : Building) (line : Line) : Except StructureFault Building :=
  match line with
  | .header name => b.openSection name
  | .option key value => b.assign key value

/-- The tree of lines, its sections under their names as they are written. -/
def build (lines : List Line) : Except StructureFault (Members Node) :=
  (lines.foldlM Building.add { top := [], target := .top }).map (·.top)

end LayeredSettings.Ini
