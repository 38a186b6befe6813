import DeclGraph.Graph.Value

/-!
# Kinds of declarations

The kinds of nodes that the front end builds, the names they go by in documents and messages, and
the fields of each in order with the value that a field has when nothing is said.
-/

namespace DeclGraph

/-- The kinds of nodes. -/
inductive Kind
  | location
  | span
  | primitiveType
  | pointerType
  | arrayType
  | functionType
  | unexposedType
  | attr
  | enumItem
  | enum
  | field
  | record
  | typedef
  | parameter
  | statement
  | function
  | macroDef
  | scope
  | diagnostic
  | compilation
  | snapshot
deriving DecidableEq, Repr, Inhabited

namespace Kind

/-- Every kind. -/
def all : List Kind :=
  [.location, .span, .primitiveType, .pointerType, .arrayType, .functionType, .unexposedType, .attr,
    .enumItem, .enum, .field, .record, .typedef, .parameter, .statement, .function, .macroDef, .scope,
    .diagnostic, .compilation, .snapshot]

/-- The kinds that rules may speak of, in order. -/
def declarations : List Kind :=
  [.location, .span, .primitiveType, .pointerType, .arrayType, .functionType, .unexposedType, .attr,
    .enumItem, .enum, .field, .record, .typedef, .parameter, .statement, .function, .macroDef, .scope,
    .diagnostic]

/-- The name of a kind in rules. -/
def name : Kind → String
  | .location => "location"
  | .span => "span"
  | .primitiveType => "primitive_type"
  | .pointerType => "pointer_type"
  | .arrayType => "array_type"
  | .functionType => "function_type"
  | .unexposedType => "unexposed_type"
  | .attr => "attribute"
  | .enumItem => "enum_item"
  | .enum => "enum"
  | .field => "field"
  | .record => "class"
  | .typedef => "typedef"
  | .parameter => "parameter"
  | .statement => "statement"
  | .function => "function"
  | .macroDef => "macro"
  | .scope => "namespace"
  | .diagnostic => "diagnostic"
  | .compilation => "compilation"
  | .snapshot => "snapshot"

/-- The name of the type of the nodes of a kind. -/
def label : Kind → String
  | .location => "SourceLocation"
  | .span => "SourceSpan"
  | .primitiveType => "PrimitiveType"
  | .pointerType => "PointerType"
  | .arrayType => "ArrayType"
  | .functionType => "FunctionType"
  | .unexposedType => "UnexposedType"
  | .attr => "Attribute"
  | .enumItem => "EnumItem"
  | .enum => "Enum"
  | .field => "Field"
  | .record => "Class"
  | .typedef => "Typedef"
  | .parameter => "Parameter"
  | .statement => "Statement"
  | .function => "Function"
  | .macroDef => "Macro"
  | .scope => "Namespace"
  | .diagnostic => "Diagnostic"
  | .compilation => "Compilation"
  | .snapshot => "ProjectionSnapshot"

/-- The kind with a name. -/
def ofName? (s : String) : Option Kind := all.find? fun k => k.name == s

/-- The fields that say where a declaration stands and what is said about it. -/
private def placement : List (String × Value) :=
  [("comment", .null), ("span", .null), ("parent", .null)]

/-- The fields of a kind in order, each with the value that it has when nothing is said. -/
def fields : Kind → List (String × Value)
  | .location => [("file", .null), ("line", .null), ("column", .null)]
  | .span => [("start", .null), ("end", .null)]
  | .primitiveType =>
    [("kind", .null), ("name", .null), ("size_of", .int 0), ("type_kind", .text "primitive")]
  | .pointerType => [("element_type", .null), ("size_of", .int 8), ("type_kind", .text "pointer")]
  | .arrayType =>
    [("element_type", .null), ("size", .int (-1)), ("size_of", .int 0), ("type_kind", .text "array")]
  | .functionType =>
    [("return_type", .null), ("parameters", .list []), ("is_variadic", .bool false),
      ("size_of", .int 0), ("type_kind", .text "function")]
  | .unexposedType => [("name", .null), ("size_of", .int 0), ("type_kind", .text "unexposed")]
  | .attr => [("name", .null), ("arguments", .null), ("span", .null), ("parent", .null)]
  | .enumItem => [("name", .null), ("value", .int 0)] ++ placement
  | .enum =>
    [("name", .null), ("items", .list []), ("integer_type", .null), ("size_of", .int 0),
      ("type_kind", .text "enum"), ("is_anonymous", .bool false), ("visibility", .text "default")]
      ++ placement
  | .field =>
    [("name", .null), ("type", .null), ("bit_field_width", .int 0),
      ("storage_qualifier", .text "none"), ("init_value", .null), ("attributes", .list []),
      ("visibility", .text "default")] ++ placement
  | .record =>
    [("name", .null), ("class_kind", .text "struct"), ("fields", .list []), ("classes", .list []),
      ("enums", .list []), ("attributes", .list []), ("size_of", .int 0),
      ("type_kind", .text "struct"), ("is_definition", .bool false), ("visibility", .text "default")]
      ++ placement
  | .typedef =>
    [("name", .null), ("element_type", .null), ("size_of", .int 0), ("type_kind", .text "typedef"),
      ("visibility", .text "default")] ++ placement
  | .parameter =>
    [("name", .null), ("type", .null), ("init_value", .null), ("span", .null), ("parent", .null)]
  | .statement =>
    [("kind", .null), ("spelling", .text ""), ("type", .null), ("children", .list []),
      ("span", .null), ("parent", .null)]
  | .function =>
    [("name", .null), ("return_type", .null), ("parameters", .list []), ("flags", .tuple []),
      ("linkage_kind", .text "external"), ("storage_qualifier", .text "none"),
      ("statements", .list []), ("attributes", .list []), ("visibility", .text "default")]
      ++ placement
  | .macroDef =>
    [("name", .null), ("parameters", .null), ("value", .text ""), ("span", .null), ("parent", .null)]
  | .scope =>
    [("name", .null), ("classes", .list []), ("enums", .list []), ("fields", .list []),
      ("functions", .list []), ("typedefs", .list []), ("namespaces", .list []),
      ("visibility", .text "default")] ++ placement
  | .diagnostic => [("severity", .null), ("message", .null), ("location", .null)]
  | .compilation =>
    [("input_file", .null), ("attributes", .list []), ("classes", .list []), ("enums", .list []),
      ("fields", .list []), ("functions", .list []), ("typedefs", .list []), ("macros", .list []),
      ("namespaces", .list []), ("diagnostics", .list [])]
  | .snapshot =>
    [("attributes", .tuple []), ("classes", .tuple []), ("enums", .tuple []), ("fields", .tuple []),
      ("functions", .tuple []), ("typedefs", .tuple []), ("macros", .tuple []),
      ("namespaces", .tuple []), ("function_map", .dict [])]

/-- The names of the fields of a kind in order. -/
def fieldNames (k : Kind) : List String := k.fields.map Prod.fst

/-- No kind has two fields of one name. -/
theorem nodup_fieldNames (k : Kind) : k.fieldNames.Nodup := by cases k <;> decide

/-- A kind is found by its name. -/
theorem ofName?_name (k : Kind) : ofName? k.name = some k := by cases k <;> decide

end Kind

end DeclGraph
