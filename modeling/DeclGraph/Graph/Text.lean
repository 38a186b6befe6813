import DeclGraph.Graph.Shown
import DeclGraph.Text.Blank

/-!
# Declarations as text

`Graph.spell` gives the spelling of a type and `Graph.display` the text of any value, which for a
declaration is how it reads in C.  Both follow references; the spelling of a record, an enumeration
or a defined type is its name, so only circles that avoid these are endless, and they are refused.
A value that does not have what its place asks for is refused too.
-/

namespace DeclGraph

/-- Why a value has no text. -/
inductive TextError
  /-- A value lacks what it is asked for. -/
  | lacks (typeName member : String)
  /-- A value is no function. -/
  | notCallable (typeName : String)
  /-- A value is no list. -/
  | notIterable (typeName : String)
  /-- A value cannot be a key. -/
  | notHashable (typeName : String)
  /-- References go in a circle. -/
  | tooDeep
deriving DecidableEq, Repr

namespace TextError

/-- The name of the class of an error. -/
def label : TextError → String
  | .lacks .. => "AttributeError"
  | .notCallable _ | .notIterable _ | .notHashable _ => "TypeError"
  | .tooDeep => "RecursionError"

/-- The words for an error. -/
def message : TextError → String
  | .lacks typeName member =>
    "'" ++ typeName ++ "' object has no attribute '" ++ member ++ "'"
  | .notCallable typeName => "'" ++ typeName ++ "' object is not callable"
  | .notIterable typeName => "'" ++ typeName ++ "' object is not iterable"
  | .notHashable typeName => "unhashable type: '" ++ typeName ++ "'"
  | .tooDeep => "maximum recursion depth exceeded"

end TextError

namespace Graph

/-! ### Parts of values -/

/-- The field of a node that a value refers to. -/
def member (g : Graph) (v : Value) (name : String) : Except TextError Value :=
  match v with
  | .node id =>
    match (g.node id).get? name with
    | some w => .ok w
    | none => .error (.lacks (g.typeName v) name)
  | v => .error (.lacks (g.typeName v) name)

/-- The items of a list or a tuple. -/
def itemsOf (g : Graph) (v : Value) : Except TextError (List Value) :=
  match v.items? with
  | some items => .ok items
  | none => .error (.notIterable (g.typeName v))

/-- A value in the middle of a text, where a plain one is meant. -/
def plain (g : Graph) : Value → String
  | .scalar s => s.display
  | v => g.shown v

/-! ### Spellings of types -/

/-- The brackets of an array; an incomplete one has no size. -/
def arrayBrackets (g : Graph) : Value → String
  | .scalar (.int n) => if n < 0 then "[]" else "[" ++ Number.ofInt n ++ "]"
  | v => "[" ++ g.plain v ++ "]"

/-- The spelling of a type; nothing is spelled `void`. -/
def spellWithin (g : Graph) : Nat → Value → Except TextError String
  | 0, _ => .error .tooDeep
  | _ + 1, .scalar .null => .ok "void"
  | fuel + 1, .node id =>
    let n := g.node id
    match n.kind? with
    | some .primitiveType => .ok (g.plain (n.get "name"))
    | some .unexposedType => .ok (g.plain (n.get "name"))
    | some .typedef => .ok (g.plain (n.get "name"))
    | some .enum => .ok ("enum " ++ g.plain (n.get "name"))
    | some .record => .ok (g.plain (n.get "class_kind") ++ " " ++ g.plain (n.get "name"))
    | some .pointerType => do
      let element ← spellWithin g fuel (n.get "element_type")
      return element ++ " *"
    | some .arrayType => do
      let element ← spellWithin g fuel (n.get "element_type")
      return element ++ g.arrayBrackets (n.get "size")
    | some .functionType => do
      let parameters ← g.itemsOf (n.get "parameters")
      let spelled ← parameters.mapM fun p => do spellWithin g fuel (← g.member p "type")
      let result ← spellWithin g fuel (n.get "return_type")
      return result ++ " (*)(" ++ ", ".intercalate spelled ++ ")"
    | some .statement => .error (.notCallable (g.typeName (n.get "spelling")))
    | _ => .error (.lacks n.shape.label "spelling")
  | _ + 1, v => .error (.lacks (g.typeName v) "spelling")

/-- The spelling of a type. -/
def spell (g : Graph) (v : Value) : Except TextError String := spellWithin g (g.size + 2) v

/-- The spelling that a node has as a type, where nodes of its kind are types. -/
def ownSpelling? (g : Graph) (id : NodeId) : Except TextError (Option String) :=
  match (g.node id).kind? with
  | some kind =>
    if kind matches .primitiveType | .pointerType | .arrayType | .functionType | .unexposedType
        | .enum | .record | .typedef then
      (g.spell (.node id)).map some
    else .ok none
  | none => .ok none

/-! ### Texts of declarations -/

/-- The text with a word in front of it. -/
private def led (word text : String) : String := word ++ " " ++ text

/-- The storage of a declaration in front of its text, unless there is none. -/
def withStorage (g : Graph) (storage : Value) (text : String) : String :=
  match storage with
  | .scalar (.text "none") => text
  | v => led (g.plain v) text

/-- Whether a list of markers holds a marker. -/
def hasMarker (flags : Value) (marker : String) : Bool :=
  ((flags.items?).getD []).any fun
    | .scalar (.text s) => s == marker
    | _ => false

mutual

/-- The text of a value; `fuel` bounds the depth. -/
def displayWithin (g : Graph) : Nat → Value → Except TextError String
  | 0, _ => .error .tooDeep
  | fuel + 1, .node id => nodeTextWithin g fuel id
  | _ + 1, v => .ok (g.plain v)

/-- The text of a node; `fuel` bounds the depth. -/
def nodeTextWithin (g : Graph) : Nat → NodeId → Except TextError String
  | 0, _ => .error .tooDeep
  | fuel + 1, id =>
    let n := g.node id
    let texts (name : String) : Except TextError (List String) := do
      (← g.itemsOf (n.get name)).mapM (displayWithin g fuel)
    let text (name : String) : Except TextError String := displayWithin g fuel (n.get name)
    match n.kind? with
    | some .attr => do
      if (n.get "arguments").isTrue then
        return "__attribute__((" ++ (← text "name") ++ "(" ++ (← text "arguments") ++ ")))"
      else return "__attribute__((" ++ (← text "name") ++ "))"
    | some .enumItem => return (← text "name") ++ " = " ++ (← text "value")
    | some .enum => do
      let items ← texts "items"
      return "enum " ++ (← text "name") ++ " \x7b" ++ ", ".intercalate items ++ "\x7d"
    | some .field => do
      let head := led (← g.spell (n.get "type")) (← text "name")
      let head := g.withStorage (n.get "storage_qualifier") head
      let head ← if (n.get "bit_field_width").isTrue then
          pure (head ++ " : " ++ (← text "bit_field_width"))
        else pure head
      match n.get "init_value" with
      | .scalar .null => return head
      | _ => return head ++ " = " ++ (← text "init_value")
    | some .record => do
      let name ← g.spell (.node id)
      if (n.get "is_definition").isTrue then
        let members ← texts "fields"
        return name ++ " \x7b " ++ " ".intercalate (members.map (· ++ ";")) ++ " \x7d"
      else return name ++ ";"
    | some .typedef => return "typedef " ++ led (← g.spell (n.get "element_type")) (← text "name")
    | some .parameter => do
      if (n.get "name").isTrue then return led (← g.spell (n.get "type")) (← text "name")
      else g.spell (n.get "type")
    | some .function => do
      let parameters ← texts "parameters"
      let parameters :=
        if hasMarker (n.get "flags") "variadic" then parameters ++ ["..."] else parameters
      let head := led (← g.spell (n.get "return_type")) (← text "name")
        ++ "(" ++ ", ".intercalate parameters ++ ")"
      let head := g.withStorage (n.get "storage_qualifier") head
      return if hasMarker (n.get "flags") "inline" then led "inline" head else head
    | some .macroDef => do
      let head ← text "name"
      let head ← match n.get "parameters" with
        | .scalar .null => pure head
        | _ => do pure (head ++ "(" ++ ", ".intercalate (← texts "parameters") ++ ")")
      let line := "#define " ++ led head (← text "value")
      return String.ofList (stripEnd line.toList)
    | some .diagnostic => do
      let words := (← text "severity") ++ ": " ++ (← text "message")
      match n.get "location" with
      | .scalar .null => return words
      | place => do
        let file ← displayWithin g fuel (← g.member place "file")
        let line ← displayWithin g fuel (← g.member place "line")
        let column ← displayWithin g fuel (← g.member place "column")
        return file ++ "(" ++ line ++ ", " ++ column ++ "): " ++ words
    | _ => .ok (g.shown (.node id))

end

/-- The text of a value. -/
def display (g : Graph) (v : Value) : Except TextError String :=
  displayWithin g (2 * g.size + 4) v

end Graph

end DeclGraph
