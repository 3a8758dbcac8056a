import LayeredSettings.Yaml.Pairs
import LayeredSettings.Yaml.Scalar.Block
import LayeredSettings.Yaml.Scalar.Quoted

/-!
# Nodes

A node is read from its text at once: properties, then content in whichever style begins here,
then the type that a tag or the text gives it. Collections read their parts through a function for
the nodes one level further in, so that the depth of a document is bounded by construction; each
collection's own loop is bounded by the length of the text.

An anchor names its collection from the beginning, so that an alias within the collection leads back
to it. The mark of such a collection is the length of the text from where it begins.

* `readSequence`, `readMapping`, `readFlow` read collections;
* `readContent` chooses among them and the scalars;
* `readNode` adds properties and types;
* `readNested` ties the knot.
-/

namespace LayeredSettings.Yaml

/-! ## What is read -/

/-- Where a node stands. -/
inductive Context where
  | flowIn
  | flowOut
  | blockIn
  | blockOut
deriving DecidableEq, Repr

/-- Whether block styles are at home in a context. -/
def Context.isBlock : Context → Bool
  | blockIn | blockOut => true
  | flowIn | flowOut => false

/-- What stands before a node's content. -/
structure Properties where
  tag : Option String
  anchor : Option String

/-- No properties. -/
def Properties.none : Properties := { tag := .none, anchor := .none }

/-- Whether there is a property. -/
def Properties.any (p : Properties) : Bool := p.tag.isSome || p.anchor.isSome

/-- A node. Without content it holds null; `present` tells whether anything of it was written. -/
structure Node where
  properties : Properties
  kind : Option Kind
  value : Value
  present : Bool

/-- A node of which nothing is written. -/
def Node.nothing : Node :=
  { properties := .none, kind := .none, value := .null, present := false }

/-- A node's content as it was found, with the properties that apply to it. -/
def Node.found (properties : Properties) (kind : Option Kind) (value : Value) : Node :=
  { properties, kind, value, present := true }

/-- A reading in progress. -/
structure Reading where
  cursor : Cursor
  /-- What the anchors name. -/
  anchors : Members Value
  /-- The collections with an anchor that have not been read to their end. -/
  begun : Begun
  handles : Members String

/-- Steps of a reading. -/
abbrev Read := StateT Reading (Except Fault)

/-- Reads a node of a context, indented more than its parent. `seek` allows it to begin on a later
line, `compact` allows a block collection to begin on this one. -/
abbrev NodeReader := Int → Context → (seek : Bool) → (compact : Bool) → Read Node

namespace Read

/-- The position. -/
def cursor : Read Cursor := return (← get).cursor

/-- Moves to a position. -/
def moveTo (c : Cursor) : Read Unit := modify fun r => { r with cursor := c }

/-- Moves on by some characters. -/
def advance (n : Nat) : Read Unit := modify fun r => { r with cursor := r.cursor.advance n }

/-- Skips white space, line breaks and comments. Returns the number of line breaks. -/
def separate : Read Nat := do
  let (c, breaks) := (← cursor).separate true
  moveTo c
  return breaks

/-- Runs a reader of part of a node. -/
def scan {α : Type} (reader : Cursor → Except Fault (Option (α × Cursor))) : Read (Option α) := do
  match ← reader (← cursor) with
  | some (result, c) =>
    moveTo c
    return some result
  | none => return none

/-- The collections that have not been read to their end. -/
def begun : Read Begun := return (← get).begun

/-- Makes an anchor, if there is one, name a value. -/
def anchor (name : Option String) (value : Value) : Read Unit :=
  match name with
  | some name => modify fun r => { r with anchors := r.anchors.set name value }
  | none => return

/-- Keeps what there is so far of a collection with an anchor. -/
def keep (name : Option String) (mark : Nat) (part : Value) : Read Unit :=
  match name with
  | some _ => modify fun r => { r with begun := (mark, part) :: r.begun }
  | none => return

/-- Begins a collection. Its anchor, if there is one, leads back to it until it ends. -/
def enter (name : Option String) (mark : Nat) (part : Value) : Read Unit := do
  anchor name (.again mark)
  keep name mark part

/-- Puts a collection that has ended wherever anchors lead back to its mark. -/
def settleMark (mark : Nat) (whole : Value) : Read Unit :=
  modify fun r => { r with
    anchors := r.anchors.map fun entry => (entry.1, Value.fill mark whole entry.2)
    begun := r.begun.filter fun entry => entry.1 ≠ mark }

/-- Ends a collection, and returns it as a whole. -/
def leave (name : Option String) (mark : Nat) (collection : Value) : Read Value :=
  match name with
  | some _ => do
    let whole := collection.closed mark
    settleMark mark whole
    return whole
  | none => return collection

/-- Gives up a mapping for a node that stands in its place and may lead back to it. The mapping
stays empty. -/
def giveUp (name : Option String) (mark : Nat) (value : Value) : Read Value :=
  match name with
  | some _ => do
    settleMark mark (.map [])
    return Value.fill mark (.map []) value
  | none => return value

end Read

open Read

/-! ## Block sequences -/

/-- Reads the entries of a block sequence, each after a hyphen. The items run backwards. -/
def readEntries (read : NodeReader) (fuel : Nat) (indent : Int) (name : Option String)
    (mark : Nat) (items : List Value) : Read (List Value) := do
  match fuel with
  | 0 => return items
  | fuel + 1 =>
    let c ← cursor
    match c.rest with
    | '-' :: rest =>
      if c.tabbed then throw .tabIndentation
      if !startsWithGap rest then return items
      advance 1
      let breaks ← separate
      let start ← cursor
      if breaks ≠ 0 ∧ (start.indent : Int) ≤ indent then
        keep name mark (.list (Value.null :: items).reverse)
        readEntries read fuel indent name mark (.null :: items)
      else
        let node ← read indent .blockIn false true
        let items := node.value :: items
        keep name mark (.list items.reverse)
        let _ ← separate
        let c ← cursor
        if (c.line = start.line ∨ indent < c.indent) ∧ !c.rest.isEmpty then
          throw .entryIndentation
        if (c.indent : Int) < indent then return items
        readEntries read fuel indent name mark items
    | [] => return items
    | _ =>
      if c.tabbed then throw .tabIndentation
      return items

/-- Reads a block sequence, if one begins here. No tab may stand before it. -/
def readSequence (read : NodeReader) (indent : Int) (p : Properties) : Read (Option Node) := do
  let c ← cursor
  if c.tabbed then return none
  let mark := c.rest.length
  enter p.anchor mark (.list [])
  let items ← match c.rest with
    | '-' :: rest =>
      if startsWithGap rest then
        let items ← readEntries read (mark + 1) indent p.anchor mark []
        pure (some items)
      else pure none
    | _ => pure none
  let whole ← leave p.anchor mark (.list (items.getD []).reverse)
  return items.map fun _ => .found p (some .sequence) whole

/-! ## Block mappings -/

/-- A block mapping while it is read. -/
structure MappingState where
  pairs : Pairs
  /-- A key written after a question mark whose value has not been read. -/
  openKey : Option Value
  /-- Whether a pair, or the key of one, has been read. -/
  begun : Bool

/-- How the reading of a block mapping ended. -/
inductive MappingEnd where
  /-- With a mapping. -/
  | mapping (pairs : Pairs)
  /-- With a node that turned out to be no key. -/
  | node (node : Node)
  /-- With nothing that could be a key. -/
  | nothing

/-- Gives an open key the value null. -/
def MappingState.close (begun : Begun) (s : MappingState) : Except Fault MappingState :=
  match s.openKey with
  | some key => return { s with pairs := ← Pairs.add begun s.pairs none key .null, openKey := none }
  | none => return s

/-- Gives an open key the value null, and keeps the mapping so far. -/
def closeKey (name : Option String) (mark : Nat) (s : MappingState) : Read MappingState := do
  let s ← s.close (← begun)
  keep name mark s.pairs.toValue
  return s

/-- Reads the pairs of a block mapping. -/
def readPairs (read : NodeReader) (fuel : Nat) (indent flowIndent : Int) (name : Option String)
    (mark : Nat) (s : MappingState) : Read MappingEnd := do
  let finish : Read MappingEnd := do
    let s ← closeKey name mark s
    return if s.begun then .mapping s.pairs else .nothing
  match fuel with
  | 0 => finish
  | fuel + 1 =>
    let c ← cursor
    match c.rest with
    | [] => finish
    | ch :: rest =>
      if s.openKey.isNone && c.tabbed then throw .tabIndentation
      -- reads the rest of a pair and goes on
      let goOn (s : MappingState) : Read MappingEnd := do
        keep name mark s.pairs.toValue
        let _ ← separate
        let after ← cursor
        if (after.line = c.line ∨ indent < after.indent) ∧ !after.rest.isEmpty then
          throw .entryIndentation
        if (after.indent : Int) < indent then
          let s ← closeKey name mark s
          return .mapping s.pairs
        readPairs read fuel indent flowIndent name mark s
      let value (keyTag : Option String) (key : Value) (s : MappingState) (compact : Bool) :
          Read MappingEnd := do
        let node ← read indent .blockOut true compact
        let pairs ← Pairs.add (← begun) s.pairs keyTag key node.value
        goOn { pairs, openKey := none, begun := true }
      if ch = '?' ∧ startsWithGap rest then
        let s ← closeKey name mark s
        advance 1
        let node ← read indent .blockOut true true
        goOn { s with openKey := some node.value, begun := true }
      else if ch = ':' ∧ startsWithGap rest then
        match s.openKey with
        | none => throw .missingKey
        | some key =>
          advance 1
          value none key s true
      else
        let node ← read flowIndent .flowOut false true
        if !node.present then finish
        else
          let after ← cursor
          if after.line = c.line then
            let colon := after.skipWhile isWhite
            moveTo colon
            match colon.rest with
            | ':' :: rest =>
              if !startsWithGap rest then throw .missingSpace
              moveTo (colon.advance 1)
              let s ← closeKey name mark s
              value node.properties.tag node.value s false
            | _ => if s.begun then throw .missingColon else return .node node
          else if s.begun then throw .multilineKey
          else return .node node

/-- Reads a block mapping, if one begins here. No tab may stand before it. A node that begins here
and is no key is returned in its place. Where neither is found the properties are given up, unless
nothing could be tried. -/
def readMapping (read : NodeReader) (indent flowIndent : Int) (p : Properties) :
    Read (Properties × Option Node) := do
  let c ← cursor
  if c.tabbed then return (p, none)
  let mark := c.rest.length
  enter p.anchor mark (.map [])
  let ending ←
    if c.rest.isEmpty then pure none
    else
      some <$> readPairs read (mark + 1) indent flowIndent p.anchor mark
        { pairs := .empty, openKey := none, begun := false }
  match ending with
  | some (.mapping pairs) =>
    let whole ← leave p.anchor mark pairs.toValue
    return (p, some (.found p (some .mapping) whole))
  | some (.node node) =>
    let value ← giveUp p.anchor mark node.value
    return (p, some (.found p node.kind value))
  | some .nothing =>
    let _ ← leave p.anchor mark (.map [])
    return (.none, none)
  | none =>
    let _ ← leave p.anchor mark (.map [])
    return (p, none)

/-! ## Flow collections -/

/-- A flow collection while it is read. -/
inductive FlowState where
  | items (items : List Value)
  | pairs (pairs : Pairs)

namespace FlowState

/-- The collection so far. -/
def toValue : FlowState → Value
  | .items values => .list values.reverse
  | .pairs ps => ps.toValue

/-- The character that ends the collection. -/
def terminator : FlowState → Char
  | .items _ => ']'
  | .pairs _ => '\x7d'

/-- The kind of the collection. -/
def kind : FlowState → Kind
  | .items _ => .sequence
  | .pairs _ => .mapping

/-- Adds an entry: a single node or a pair. A pair among items is a map of its own, and a single
node among pairs is a key. -/
def add (begun : Begun) (s : FlowState) (keyTag : Option String) (key : Value)
    (part : Option Value) : Except Fault FlowState :=
  match s, part with
  | .items values, none => .ok (.items (key :: values))
  | .items values, some part => do
    let one ← Pairs.add begun .empty keyTag key part
    return .items (one.toValue :: values)
  | .pairs ps, part => return .pairs (← Pairs.add begun ps keyTag key (part.getD .null))

end FlowState

/-- Reads the entries of a flow collection up to its end. `next` tells whether another entry may
come. -/
def readFlowEntries (read : NodeReader) (fuel : Nat) (indent : Int) (name : Option String)
    (mark : Nat) (next : Bool) (s : FlowState) : Read FlowState := do
  match fuel with
  | 0 => throw .unclosedCollection
  | fuel + 1 =>
    let _ ← separate
    let c ← cursor
    match c.rest with
    | [] => throw .unclosedCollection
    | ch :: rest =>
      if ch = s.terminator then
        advance 1
        return s
      if !next then throw .missingComma
      if ch = ',' then throw .missingEntry
      let explicit := ch = '?' ∧ startsWithGap rest
      if explicit then
        advance 1
        let _ ← separate
      let start ← cursor
      let key ← read indent .flowIn false true
      let _ ← separate
      let c ← cursor
      let hasColon := (explicit ∨ c.line = start.line) ∧ c.peek = some ':'
      let mut part : Option Value := if explicit then some .null else none
      if hasColon then
        advance 1
        let _ ← separate
        let node ← read indent .flowIn false true
        part := some node.value
      let s ← FlowState.add (← begun) s key.properties.tag key.value part
      keep name mark s.toValue
      let _ ← separate
      let c ← cursor
      let more := c.peek = some ','
      if more then advance 1
      readFlowEntries read fuel indent name mark more s

/-- Reads a flow collection, if one begins here. -/
def readFlow (read : NodeReader) (indent : Int) (p : Properties) : Read (Option Node) := do
  let c ← cursor
  let start : Option FlowState := match c.peek with
    | some '[' => some (.items [])
    | some '\x7b' => some (.pairs .empty)
    | _ => none
  match start with
  | none => return none
  | some s =>
    let mark := c.rest.length
    enter p.anchor mark s.toValue
    advance 1
    let s ← readFlowEntries read (mark + 1) indent p.anchor mark true s
    let whole ← leave p.anchor mark s.toValue
    return some (.found p (some s.kind) whole)

/-! ## Aliases and scalars -/

/-- Reads an alias, if one stands here, and the separation after it. Within the collection that it
names, an alias leads back. -/
def readAlias : Read (Option Value) := do
  let c ← cursor
  match c.rest with
  | '*' :: rest =>
    let name ← anchorName rest
    match (← get).anchors.get? name with
    | none => throw .unknownAlias
    | some target =>
      advance (name.length + 1)
      let _ ← separate
      return some target
  | _ => return none

/-- Reads a scalar or an alias, if one stands here. A plain scalar without a tag gets the tag that
leaves its type to its text. -/
def readScalar (flowIndent : Int) (context : Context) (p : Properties) : Read Node := do
  let text (s : String) : Node := .found p (some .scalar) (.str s)
  let block ← if context.isBlock then scan (readBlock flowIndent) else pure none
  match block with
  | some s => return text s
  | none =>
    match ← scan readQuoted with
    | some s => return text s
    | none =>
      match ← readAlias with
      | some v =>
        if p.any then throw .aliasWithProperties
        return .found p none v
      | none =>
        match ← scan (readPlain flowIndent (context = .flowIn)) with
        | some s => return { text s with properties := { p with tag := p.tag.or (some plainTag) } }
        | none => return { Node.nothing with properties := p }

/-! ## Nodes -/

/-- How a line is indented against the parent of a node that begins on it. -/
def Cursor.against (c : Cursor) (parentIndent : Int) : Ordering :=
  compare (c.indent : Int) parentIndent

/-- The properties of a node as they are read. -/
structure Heading where
  properties : Properties
  /-- Where the first property stands, and the reading there. -/
  start : Option Reading
  /-- Whether a line break has been passed. -/
  onNewLine : Bool
  /-- Whether a block collection may follow. -/
  collections : Bool
  /-- How the node is indented against its parent. -/
  indentation : Ordering

/-- Reads the properties of a node. On a new line, a property that the node has already belongs to
the next node. A node has at most one tag and one anchor, so three rounds are enough. -/
def readHeading (fuel : Nat) (parentIndent : Int) (context : Context) (h : Heading) :
    Read Heading := do
  match fuel with
  | 0 => return h
  | fuel + 1 =>
    let before ← get
    let c := before.cursor
    let repeated := (c.peek = some '!' ∧ h.properties.tag.isSome) ∨
      (c.peek = some '&' ∧ h.properties.anchor.isSome)
    if repeated then
      if h.onNewLine then return h else throw .repeatedProperty
    let properties ← do
      match ← scan (readTag before.handles) with
      | some tag => pure (some { h.properties with tag := some tag })
      | none =>
        match ← scan readAnchor with
        | some name => pure (some { h.properties with anchor := some name })
        | none => pure none
    match properties with
    | none => return h
    | some properties =>
      let start := h.start.or (some before)
      if (← separate) ≠ 0 then
        let c ← cursor
        readHeading fuel parentIndent context
          { properties, start, onNewLine := true, collections := context.isBlock
            indentation := c.against parentIndent }
      else readHeading fuel parentIndent context { h with properties, start, collections := false }

/-- Reads a block mapping whose first key has the properties that were taken for the mapping's.
Unless one begins there, nothing is read. -/
def readMappingAt (read : NodeReader) (start : Reading) (flowIndent : Int) :
    Read (Option Node) := do
  let before ← get
  set start
  let (_, found) ← readMapping read start.cursor.column flowIndent .none
  match found with
  | some node =>
    if node.kind = some .mapping then return some node
    set before
    return none
  | none =>
    set before
    return none

/-- Reads the content of a node that is indented more than its parent. -/
def readContent (read : NodeReader) (flowIndent : Int) (context : Context) (h : Heading)
    (compact : Bool) : Read Node := do
  let c ← cursor
  let indent : Int := c.column
  let collections := h.collections && (h.onNewLine || compact)
  let sequence ← if collections then readSequence read indent h.properties else pure none
  match sequence with
  | some node => return node
  | none =>
    let (p, mapping) ←
      if collections then readMapping read indent flowIndent h.properties
      else pure (h.properties, none)
    match mapping with
    | some node => return node
    | none =>
      match ← readFlow read flowIndent p with
      | some node => return node
      | none =>
        let c ← cursor
        let isBlockScalar := c.peek = some '|' ∨ c.peek = some '>'
        let inner ← match h.start with
          | some start =>
            if context.isBlock ∧ !collections ∧ !isBlockScalar then
              readMappingAt read start flowIndent
            else pure none
          | none => pure none
        match inner with
        | some node => return node
        | none =>
          let node ← readScalar flowIndent context p
          anchor node.properties.anchor node.value
          return node

/-- Gives a node the type that its tag or its text asks for, and its anchor the result. -/
def settle (node : Node) : Read Node := do
  let done (value : Value) (tag : Option String) : Read Node := do
    anchor node.properties.anchor value
    return { node with
      value, properties := { node.properties with tag }
      present := node.present || node.properties.any }
  match node.properties.tag with
  | none => done node.value none
  | some tag =>
    if tag = plainTag then
      match node.value with
      | .str s =>
        if node.kind ≠ some .scalar then throw .unknownTag
        match NodeType.ofPlain? s with
        | some (t, v) => done v (some t.tag)
        | none => return { node with present := true }
      | .null => done .null (some NodeType.null.tag)
      | _ =>
        if node.kind ≠ some .scalar then throw .unknownTag
        return { node with present := true }
    else if tag = bareTag then return { node with present := true }
    else done (← resolveTag (← begun) tag node.kind node.value) (some tag)

/-- Reads a node, its parts through `read`. -/
def readNode (read : NodeReader) : NodeReader := fun parentIndent context seek compact => do
  let breaks ← if seek then separate else pure 0
  let c ← cursor
  let heading : Heading :=
    { properties := .none, start := none, onNewLine := breaks ≠ 0, collections := context.isBlock
      indentation := if breaks ≠ 0 then c.against parentIndent else .gt }
  let h ←
    if heading.indentation = .gt then
      readHeading 3 parentIndent context heading
    else pure heading
  let flowIndent := if context.isBlock then parentIndent + 1 else parentIndent
  let empty := { Node.nothing with properties := h.properties }
  match h.indentation with
  | .gt => settle (← readContent read flowIndent context h compact)
  | .eq =>
    -- a block sequence may be indented like its parent
    if context = .blockOut ∧ h.collections ∧ (h.onNewLine ∨ compact) then
      let c ← cursor
      match ← readSequence read c.column h.properties with
      | some node => settle node
      | none => settle empty
    else settle empty
  | .lt => settle empty

/-- The deepest nesting of nodes. This is the parser's own limit: a text that is nested deeper is
refused. -/
def maxDepth : Nat := 100

/-- Reads a node with at most so many levels of nodes. -/
def readNested : (depth : Nat) → NodeReader
  | 0 => fun _ _ _ _ => throw .tooDeep
  | depth + 1 => readNode (readNested depth)

end LayeredSettings.Yaml
