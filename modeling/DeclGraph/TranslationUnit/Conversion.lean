import DeclGraph.Graph.Text
import DeclGraph.TranslationUnit.Tokens

/-!
# Converting cursors

A conversion builds a graph node by node.  It remembers which node each declaration and each type
has become, so that a declaration is one node however often it is met.  This module holds the state
of a conversion and the nodes that depend on a single cursor: places, attributes and macros.
-/

namespace DeclGraph

/-- What a conversion has built so far. -/
structure Conversion where
  /-- The graph. -/
  graph : Graph
  /-- The nodes of types, by kind and spelling. -/
  types : Entries (TypeKind × String) NodeId
  /-- The nodes of declarations, by what tells them apart. -/
  declarations : Entries String NodeId

namespace Conversion

/-- The conversion that has not started. -/
def start : Conversion := ⟨.empty, [], []⟩

instance : Inhabited Conversion := ⟨start⟩

end Conversion

/-- A step of a conversion, which may fail. -/
abbrev Convert := StateT Conversion (Except Fault)

/-- What stands around every conversion: the unit and what the parse was told. -/
structure ConversionSetting where
  /-- The unit. -/
  unit : TranslationUnit
  /-- What the parse was told. -/
  options : ParseOptions

namespace Convert

/-! ### Nodes -/

/-- Adds a node. -/
def add (n : Node) : Convert NodeId := fun s =>
  .ok (s.graph.size, { s with graph := s.graph.add n })

/-- The node at a place. -/
def node (id : NodeId) : Convert Node := fun s => .ok (s.graph.node id, s)

/-- Puts a value into a field of a node. -/
def setField (id : NodeId) (name : String) (v : Value) : Convert Unit := fun s =>
  .ok ((), { s with graph := s.graph.setField id name v })

/-- A list with one more item. -/
def appended (list item : Value) : Value := .list ((list.items?.getD []) ++ [item])

/-- Adds a node to a list in a field of a node. -/
def append (id : NodeId) (name : String) (item : NodeId) : Convert Unit := do
  let n ← node id
  setField id name (appended (n.get name) (.node item))

/-- Whether a list refers to a node. -/
def refersTo (list : Value) (id : NodeId) : Bool :=
  (list.items?.getD []).any fun
    | .node other => other == id
    | _ => false

/-- Adds a node to a list in a field of a node, unless it is there already. -/
def appendOnce (id : NodeId) (name : String) (item : NodeId) : Convert Unit := do
  let n ← node id
  if refersTo (n.get name) item then return ()
  else setField id name (appended (n.get name) (.node item))

/-! ### What has been converted -/

/-- The node that a declaration has become, if it is of a kind. -/
def declared? (key : String) (kind : Kind) : Convert (Option NodeId) := fun s =>
  .ok ((Entries.get? key s.declarations).filter fun id => (s.graph.node id).isKind kind, s)

/-- Remembers the node of a declaration. -/
def declare (key : String) (id : NodeId) : Convert Unit := fun s =>
  .ok ((), { s with declarations := Entries.put key id s.declarations })

/-- The node that a type has become. -/
def converted? (key : TypeKind × String) : Convert (Option NodeId) := fun s =>
  .ok (Entries.get? key s.types, s)

/-- Adds the node of a type and remembers it. -/
def addType (key : TypeKind × String) (n : Node) : Convert NodeId := do
  let id ← add n
  fun s => .ok (id, { s with types := Entries.put key id s.types })

/-- Gives a declaration a parent, if it has none. -/
def adopt (id : NodeId) (parent : Value) : Convert Unit := do
  match (← node id).get "parent" with
  | .scalar .null => setField id "parent" parent
  | _ => return ()

/-! ### Looking at cursors and types -/

/-- Looks at a part of a cursor. -/
def look (c : Cursor) (part : Part) : Convert Unit := liftM (c.readable part)

/-- The kind of a cursor. -/
def kindOf (c : Cursor) : Convert CursorKind := do
  look c .kind
  return c.kind

/-- The name of a cursor. -/
def nameOf (c : Cursor) : Convert String := do
  look c .spelling
  return c.spelling

/-- The name of a declaration; one without a name of its own has none. -/
def ownNameOf (c : Cursor) : Convert String :=
  if c.isAnonymous then return "" else nameOf c

/-- The type of a cursor. -/
def typeOf (c : Cursor) : Convert (Option TypeId) := do
  look c .type
  return c.type?

/-- What goes wrong when something is asked of a type that is none. -/
def noTypeFault (member : String) : Fault :=
  let e := TextError.lacks "NoneType" member
  .ofLabel e.label e.message

/-- The size of the type of a cursor; one that has no size counts as empty. -/
def sizeOf (u : TranslationUnit) (c : Cursor) : Convert Value := do
  match ← typeOf c with
  | some id => return .int (max (u.type id).size 0)
  | none => throw (noTypeFault "get_size")

/-- What tells the declaration of a cursor from all others: its identity, or where it stands. -/
def keyOf (c : Cursor) : Convert String := do
  look c .identity
  if !c.identity.isEmpty then return c.identity
  look c .location
  look c .kind
  return c.kind.name ++ "@" ++ c.location.file?.getD "" ++ ":" ++ Number.ofInt c.location.line ++ ":"
    ++ Number.ofInt c.location.column

/-- The comment in front of a cursor, if comments are wanted. -/
def commentOf (s : ConversionSetting) (c : Cursor) : Value :=
  if s.options.comments then .text? c.comment? else .null

/-! ### Nodes of single cursors -/

/-- The node of a place. -/
def addPlace (p : SourcePlace) : Convert NodeId :=
  add (.make .location
    [("file", .text? p.file?), ("line", .int p.line), ("column", .int p.column)])

/-- The node of where a cursor starts and ends. -/
def spanOf (c : Cursor) : Convert Value := do
  look c .extent
  let start ← addPlace c.start
  let stop ← addPlace c.stop
  return .node (← add (.make .span [("start", .node start), ("end", .node stop)]))

/-- The node of an attribute. -/
def addAttribute (c : Cursor) (parent : Value) : Convert NodeId := do
  let kind ← kindOf c
  let spelled ← nameOf c
  let name := if spelled.isEmpty then attributeName kind else spelled
  let span ← spanOf c
  add (.make .attr [("name", .text name), ("arguments", .text? (attributeArguments? c.tokens)),
    ("span", span), ("parent", parent)])

/-- The node of a macro. -/
def addMacro (c : Cursor) (parent : Value) : Convert NodeId := do
  let text := MacroText.ofTokens c.tokens
  let name ← nameOf c
  let span ← spanOf c
  let parameters : Value := match text.parameters? with
    | some names => .list (names.map .text)
    | none => .null
  add (.make .macroDef [("name", .text name), ("parameters", parameters), ("value", .text text.value),
    ("span", span), ("parent", parent)])

/-- The node of a remark. -/
def addRemark (r : Remark) : Convert NodeId := do
  let severity := if 3 ≤ r.severity then "error" else if r.severity = 2 then "warning" else "info"
  let location ← if r.location.file?.isSome then (Value.node <$> addPlace r.location) else pure .null
  add (.make .diagnostic
    [("severity", .text severity), ("message", .text r.spelling), ("location", location)])

end Convert

end DeclGraph
