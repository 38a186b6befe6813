import DeclGraph.TranslationUnit.Conversion

/-!
# Converting types and declarations

Types lead to declarations and declarations to types, so they are converted together.  A record, an
enumeration and a defined type become one node each, whether they are met as declarations or as
types; any other type becomes one node for each kind and spelling.  A node is remembered before its
parts are converted, so that circles come to an end.

Each step down takes one unit of fuel.  `TranslationUnit.depthLimit` is enough for every unit whose
longer names of types come to an end.
-/

namespace DeclGraph

namespace Convert

/-- A new record. -/
def newRecord (s : ConversionSetting) (c : Cursor) (parent : Value) : Convert NodeId := do
  let kind ← kindOf c
  let sort := if kind = .union then "union" else "struct"
  let name ← ownNameOf c
  let span ← spanOf c
  add (.make .record [("name", .text name), ("class_kind", .text sort), ("type_kind", .text sort),
    ("span", span), ("comment", commentOf s c), ("parent", parent)])

/-- A new enumeration. -/
def newEnum (s : ConversionSetting) (c : Cursor) (parent : Value) : Convert NodeId := do
  let name ← ownNameOf c
  let size ← sizeOf s.unit c
  let span ← spanOf c
  add (.make .enum [("name", .text name), ("size_of", size), ("is_anonymous", .bool c.isAnonymous),
    ("span", span), ("comment", commentOf s c), ("parent", parent)])

/-- A new defined type. -/
def newTypedef (s : ConversionSetting) (c : Cursor) (parent : Value) : Convert NodeId := do
  let name ← nameOf c
  let size ← sizeOf s.unit c
  let span ← spanOf c
  add (.make .typedef [("name", .text name), ("size_of", size), ("span", span),
    ("comment", commentOf s c), ("parent", parent)])

/-- The node of a constant of an enumeration. -/
def addEnumItem (s : ConversionSetting) (c : Cursor) (parent : NodeId) : Convert NodeId := do
  let name ← nameOf c
  let span ← spanOf c
  add (.make .enumItem [("name", .text name), ("value", .int c.enumValue),
    ("comment", commentOf s c), ("span", span), ("parent", .node parent)])

/-- The attributes among cursors, as nodes. -/
def addAttributes (u : TranslationUnit) (parent : Value) : List CursorId → Convert (List NodeId)
  | [] => return []
  | child :: rest => do
    let c := u.cursor child
    if (← kindOf c).isAttribute then
      let id ← addAttribute c parent
      return id :: (← addAttributes u parent rest)
    else addAttributes u parent rest

/-- The expressions among cursors. -/
def expressionsOf (u : TranslationUnit) : List CursorId → Convert (List Cursor)
  | [] => return []
  | child :: rest => do
    let c := u.cursor child
    let isExpression := (← kindOf c).isExpression
    let others ← expressionsOf u rest
    return if isExpression then c :: others else others

/-- The initial value of a variable: the tokens of its last expression. -/
def initialValue (u : TranslationUnit) (c : Cursor) : Convert Value := do
  if (← kindOf c) = .var then
    match (← expressionsOf u c.children).getLast? with
    | some e => return .text (spaced e.tokens)
    | none => return .null
  else return .null

mutual

/-- The node of a type, or nothing where there is no type. -/
def typeWithin (s : ConversionSetting) : Nat → Option TypeId → Convert Value
  | 0, _ => throw .tooDeep
  | _ + 1, none => return .null
  | fuel + 1, some id => do
    let t := s.unit.type id
    liftM (t.readable .kind)
    match t.kind.shape with
    | .invalid => return .null
    | .elaborated => typeWithin s fuel t.namedType?
    | .record => return .node (← recordWithin s fuel t.declaration .null)
    | .enum => return .node (← enumWithin s fuel t.declaration .null)
    | .typedef => return .node (← typedefWithin s fuel t.declaration .null)
    | .primitive name =>
      newTypeWithin s fuel t (.make .primitiveType
        [("kind", .text name), ("name", .text t.spelling), ("size_of", .int (max t.size 0))])
    | .pointer => newTypeWithin s fuel t (.make .pointerType [("size_of", .int (max t.size 0))])
    | .array sized =>
      newTypeWithin s fuel t (.make .arrayType
        [("size", .int (if sized then t.elementCount else -1)), ("size_of", .int (max t.size 0))])
    | .function _ => newTypeWithin s fuel t (.make .functionType [])
    | .unexposed =>
      newTypeWithin s fuel t (.make .unexposedType
        [("name", .text t.spelling), ("size_of", .int (max t.size 0))])

/-- The node of a type that is no declaration: the one that its kind and spelling have become, or
the given one with its parts. -/
def newTypeWithin (s : ConversionSetting) : Nat → CType → Node → Convert Value
  | 0, _, _ => throw .tooDeep
  | fuel + 1, t, fresh => do
    liftM (t.readable .spelling)
    match ← converted? (t.kind, t.spelling) with
    | some id => return .node id
    | none =>
      let id ← addType (t.kind, t.spelling) fresh
      match t.kind.shape with
      | .pointer => setField id "element_type" (← typeWithin s fuel t.pointee?)
      | .array _ => setField id "element_type" (← typeWithin s fuel t.elementType?)
      | .function prototyped =>
        setField id "return_type" (← typeWithin s fuel t.result?)
        if prototyped then
          setField id "is_variadic" (.bool t.isVariadic)
          let parameters ← t.arguments.mapM fun argument => do
            let type ← typeWithin s fuel (some argument)
            add (.make .parameter [("name", .text ""), ("type", type), ("parent", .node id)])
          setField id "parameters" (.nodes parameters)
      | _ => pure ()
      return .node id

/-- The node of a record. -/
def recordWithin (s : ConversionSetting) : Nat → CursorId → Value → Convert NodeId
  | 0, _, _ => throw .tooDeep
  | fuel + 1, cursor, parent => do
    let c := s.unit.cursor cursor
    let key ← keyOf c
    let id ← match ← declared? key .record with
      | some id => do
        adopt id parent
        pure id
      | none => do
        let id ← newRecord s c parent
        declare key id
        pure id
    if !c.isDefinition || ((← node id).get "is_definition").isTrue then return id
    setField id "is_definition" (.bool true)
    setField id "size_of" (← sizeOf s.unit c)
    setField id "span" (← spanOf c)
    c.children.forM (memberWithin s fuel id)
    return id

/-- Adds a member of a record to its node. -/
def memberWithin (s : ConversionSetting) : Nat → NodeId → CursorId → Convert Unit
  | 0, _, _ => throw .tooDeep
  | fuel + 1, id, child => do
    let c := s.unit.cursor child
    let kind ← kindOf c
    if kind = .field then append id "fields" (← fieldWithin s fuel child (.node id))
    else if kind.isRecord then
      appendOnce id "classes" (← recordWithin s fuel child (.node id))
    else if kind = .enum then appendOnce id "enums" (← enumWithin s fuel child (.node id))
    else if kind.isAttribute then append id "attributes" (← addAttribute c (.node id))

/-- The node of an enumeration. -/
def enumWithin (s : ConversionSetting) : Nat → CursorId → Value → Convert NodeId
  | 0, _, _ => throw .tooDeep
  | fuel + 1, cursor, parent => do
    let c := s.unit.cursor cursor
    let key ← keyOf c
    match ← declared? key .enum with
    | some id =>
      adopt id parent
      return id
    | none =>
      let id ← newEnum s c parent
      declare key id
      setField id "integer_type" (← typeWithin s fuel c.enumType?)
      for child in c.children do
        let item := s.unit.cursor child
        if (← kindOf item) = .enumConstant then append id "items" (← addEnumItem s item id)
      return id

/-- The node of a defined type. -/
def typedefWithin (s : ConversionSetting) : Nat → CursorId → Value → Convert NodeId
  | 0, _, _ => throw .tooDeep
  | fuel + 1, cursor, parent => do
    let c := s.unit.cursor cursor
    let key ← keyOf c
    match ← declared? key .typedef with
    | some id =>
      adopt id parent
      return id
    | none =>
      let id ← newTypedef s c parent
      declare key id
      setField id "element_type" (← typeWithin s fuel c.underlyingType?)
      return id

/-- The node of a field or a variable. -/
def fieldWithin (s : ConversionSetting) : Nat → CursorId → Value → Convert NodeId
  | 0, _, _ => throw .tooDeep
  | fuel + 1, cursor, parent => do
    let c := s.unit.cursor cursor
    let name ← nameOf c
    let type ← typeWithin s fuel (← typeOf c)
    let initial ← initialValue s.unit c
    let span ← spanOf c
    let id ← add (.make .field [("name", .text name), ("type", type),
      ("bit_field_width", .int (c.bitWidth?.getD 0)),
      ("storage_qualifier", .text (storageName c.storage)), ("init_value", initial),
      ("comment", commentOf s c), ("span", span), ("parent", parent)])
    setField id "attributes" (.nodes (← addAttributes s.unit (.node id) c.children))
    return id

end

end Convert

namespace TranslationUnit

/-- How deep the conversion of a unit may go: between two of its declarations and types there are
no more steps than names of types. -/
def depthLimit (u : TranslationUnit) : Nat := (u.cursors.size + u.types.size + 2) * (u.types.size + 8)

end TranslationUnit

namespace Convert

/-- The node of a type. -/
def typeNode (s : ConversionSetting) (type? : Option TypeId) : Convert Value :=
  typeWithin s s.unit.depthLimit type?

/-- The node of a record. -/
def recordNode (s : ConversionSetting) (cursor : CursorId) (parent : Value) : Convert NodeId :=
  recordWithin s s.unit.depthLimit cursor parent

/-- The node of an enumeration. -/
def enumNode (s : ConversionSetting) (cursor : CursorId) (parent : Value) : Convert NodeId :=
  enumWithin s s.unit.depthLimit cursor parent

/-- The node of a defined type. -/
def typedefNode (s : ConversionSetting) (cursor : CursorId) (parent : Value) : Convert NodeId :=
  typedefWithin s s.unit.depthLimit cursor parent

/-- The node of a variable. -/
def fieldNode (s : ConversionSetting) (cursor : CursorId) (parent : Value) : Convert NodeId :=
  fieldWithin s s.unit.depthLimit cursor parent

end Convert

end DeclGraph
