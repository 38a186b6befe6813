/-!
# Kinds of cursors and types

A compiler library names the kinds of its cursors and types.  What matters about a kind of cursor is
whether it is an attribute, an expression or one of the declarations that are converted; what
matters about a kind of type is how types of this kind are converted.
-/

namespace DeclGraph

/-- The kind of a cursor, by its name. -/
structure CursorKind where
  /-- The name. -/
  name : String
deriving DecidableEq, Repr

namespace CursorKind

/-- The kind of a cursor that stands for nothing. -/
def noDeclaration : CursorKind := ⟨"NO_DECL_FOUND"⟩

/-- A definition of a macro. -/
def definedMacro : CursorKind := ⟨"MACRO_DEFINITION"⟩

/-- A function. -/
def function : CursorKind := ⟨"FUNCTION_DECL"⟩

/-- A structure. -/
def struct : CursorKind := ⟨"STRUCT_DECL"⟩

/-- A union. -/
def union : CursorKind := ⟨"UNION_DECL"⟩

/-- An enumeration. -/
def enum : CursorKind := ⟨"ENUM_DECL"⟩

/-- A constant of an enumeration. -/
def enumConstant : CursorKind := ⟨"ENUM_CONSTANT_DECL"⟩

/-- A defined type. -/
def typedef : CursorKind := ⟨"TYPEDEF_DECL"⟩

/-- A variable. -/
def var : CursorKind := ⟨"VAR_DECL"⟩

/-- A namespace. -/
def scope : CursorKind := ⟨"NAMESPACE"⟩

/-- A field of a record. -/
def field : CursorKind := ⟨"FIELD_DECL"⟩

/-- A block of statements. -/
def block : CursorKind := ⟨"COMPOUND_STMT"⟩

/-- The names of the kinds that are attributes. -/
def attributeNames : List String :=
  ["UNEXPOSED_ATTR", "IB_ACTION_ATTR", "IB_OUTLET_ATTR", "IB_OUTLET_COLLECTION_ATTR",
    "CXX_FINAL_ATTR", "CXX_OVERRIDE_ATTR", "ANNOTATE_ATTR", "ASM_LABEL_ATTR", "PACKED_ATTR",
    "PURE_ATTR", "CONST_ATTR", "NODUPLICATE_ATTR", "CUDACONSTANT_ATTR", "CUDADEVICE_ATTR",
    "CUDAGLOBAL_ATTR", "CUDAHOST_ATTR", "CUDASHARED_ATTR", "VISIBILITY_ATTR", "DLLEXPORT_ATTR",
    "DLLIMPORT_ATTR", "CONVERGENT_ATTR", "WARN_UNUSED_ATTR", "WARN_UNUSED_RESULT_ATTR",
    "ALIGNED_ATTR"]

/-- The names of the kinds that are expressions. -/
def expressionNames : List String :=
  ["UNEXPOSED_EXPR", "DECL_REF_EXPR", "MEMBER_REF_EXPR", "CALL_EXPR", "OBJC_MESSAGE_EXPR",
    "BLOCK_EXPR", "INTEGER_LITERAL", "FLOATING_LITERAL", "IMAGINARY_LITERAL", "STRING_LITERAL",
    "CHARACTER_LITERAL", "PAREN_EXPR", "UNARY_OPERATOR", "ARRAY_SUBSCRIPT_EXPR", "BINARY_OPERATOR",
    "COMPOUND_ASSIGNMENT_OPERATOR", "CONDITIONAL_OPERATOR", "CSTYLE_CAST_EXPR",
    "COMPOUND_LITERAL_EXPR", "INIT_LIST_EXPR", "ADDR_LABEL_EXPR", "StmtExpr",
    "GENERIC_SELECTION_EXPR", "GNU_NULL_EXPR", "CXX_STATIC_CAST_EXPR", "CXX_DYNAMIC_CAST_EXPR",
    "CXX_REINTERPRET_CAST_EXPR", "CXX_CONST_CAST_EXPR", "CXX_FUNCTIONAL_CAST_EXPR",
    "CXX_TYPEID_EXPR", "CXX_BOOL_LITERAL_EXPR", "CXX_NULL_PTR_LITERAL_EXPR", "CXX_THIS_EXPR",
    "CXX_THROW_EXPR", "CXX_NEW_EXPR", "CXX_DELETE_EXPR", "CXX_UNARY_EXPR", "OBJC_STRING_LITERAL",
    "OBJC_ENCODE_EXPR", "OBJC_SELECTOR_EXPR", "OBJC_PROTOCOL_EXPR", "OBJC_BRIDGE_CAST_EXPR",
    "PACK_EXPANSION_EXPR", "SIZE_OF_PACK_EXPR", "LAMBDA_EXPR", "OBJ_BOOL_LITERAL_EXPR",
    "OBJ_SELF_EXPR", "OMP_ARRAY_SECTION_EXPR", "OBJC_AVAILABILITY_CHECK_EXPR",
    "FIXED_POINT_LITERAL", "OMP_ARRAY_SHAPING_EXPR", "OMP_ITERATOR_EXPR", "CXX_ADDRSPACE_CAST_EXPR",
    "CONCEPT_SPECIALIZATION_EXPR", "REQUIRES_EXPR"]

/-- Whether the kind is an attribute. -/
def isAttribute (k : CursorKind) : Bool := attributeNames.contains k.name

/-- Whether the kind is an expression. -/
def isExpression (k : CursorKind) : Bool := expressionNames.contains k.name

/-- Whether the kind is a structure or a union. -/
def isRecord (k : CursorKind) : Bool := k == struct || k == union

/-- The name in small letters. -/
def lowerName (k : CursorKind) : String := k.name.toLower

/-- No attribute is an expression. -/
theorem not_isExpression_of_isAttribute {k : CursorKind} (h : k.isAttribute = true) :
    k.isExpression = false := by
  have all : attributeNames.all fun name => !expressionNames.contains name := by decide
  have := List.all_eq_true.1 all k.name (by simpa [isAttribute] using h)
  simpa [isExpression] using this

end CursorKind

/-- The kind of a type, by its name. -/
structure TypeKind where
  /-- The name. -/
  name : String
deriving DecidableEq, Repr

/-- How the types of a kind are converted. -/
inductive TypeShape
  /-- There is no type. -/
  | invalid
  /-- The type is another one under a longer name. -/
  | elaborated
  | record
  | enum
  | typedef
  /-- A type of the language itself, with its name. -/
  | primitive (name : String)
  | pointer
  /-- An array, and whether it has a size. -/
  | array (sized : Bool)
  /-- A function, and whether its parameters are known. -/
  | function (prototyped : Bool)
  /-- Any other type. -/
  | unexposed
deriving DecidableEq, Repr

namespace TypeKind

/-- The kind of what is no type. -/
def invalid : TypeKind := ⟨"INVALID"⟩

/-- The kind of functions whose parameters are known. -/
def prototype : TypeKind := ⟨"FUNCTIONPROTO"⟩

/-- The names of the types of the language itself, by the names of their kinds. -/
def primitiveNames : List (String × String) :=
  [("VOID", "void"), ("BOOL", "bool"), ("CHAR_U", "char"), ("CHAR_S", "char"),
    ("UCHAR", "unsigned char"), ("SCHAR", "signed char"), ("CHAR16", "char16_t"),
    ("CHAR32", "char32_t"), ("WCHAR", "wchar_t"), ("USHORT", "unsigned short"), ("SHORT", "short"),
    ("UINT", "unsigned int"), ("INT", "int"), ("ULONG", "unsigned long"), ("LONG", "long"),
    ("ULONGLONG", "unsigned long long"), ("LONGLONG", "long long"),
    ("UINT128", "unsigned __int128"), ("INT128", "__int128"), ("FLOAT", "float"),
    ("DOUBLE", "double"), ("LONGDOUBLE", "long double")]

/-- How the types of the kind are converted. -/
def shape (k : TypeKind) : TypeShape :=
  match k.name with
  | "INVALID" => .invalid
  | "ELABORATED" => .elaborated
  | "RECORD" => .record
  | "ENUM" => .enum
  | "TYPEDEF" => .typedef
  | "POINTER" => .pointer
  | "CONSTANTARRAY" => .array true
  | "INCOMPLETEARRAY" | "VARIABLEARRAY" | "DEPENDENTSIZEDARRAY" => .array false
  | "FUNCTIONPROTO" => .function true
  | "FUNCTIONNOPROTO" => .function false
  | name =>
    match primitiveNames.lookup name with
    | some spelled => .primitive spelled
    | none => .unexposed

end TypeKind

end DeclGraph
