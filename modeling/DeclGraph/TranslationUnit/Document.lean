import DeclGraph.Json.Basic
import DeclGraph.TranslationUnit.Basic

/-!
# Recorded translation units

A translation unit can be recorded as a JSON document, with a list of cursors, a list of types and
the places of the cursors at the top.  `TranslationUnit.ofJson` reads a record; whatever is not in
it is as in the empty cursor and in no type.
-/

namespace DeclGraph

namespace UnitDocument

/-- A whole number under a key. -/
def int (v : Json) (key : String) (usual : Int) : Int :=
  match v.get? key with
  | some (.int n) => n
  | _ => usual

/-- A text under a key. -/
def text (v : Json) (key usual : String) : String := ((v.get? key).bind Json.string?).getD usual

/-- A truth value under a key. -/
def flag (v : Json) (key : String) : Bool :=
  match v.get? key with
  | some (.bool b) => b
  | _ => false

/-- The items under a key. -/
def items (v : Json) (key : String) : List Json :=
  match v.get? key with
  | some (.array vs) => vs
  | _ => []

/-- Places under a key. -/
def places (v : Json) (key : String) : List Nat :=
  (items v key).filterMap fun
    | .int n => some n.toNat
    | _ => none

/-- The type under a key: an explicit `null` is no type at all, and a type that is not there stands
at a place without a type. -/
def typeAt (v : Json) (key : String) (noType : TypeId) : Option TypeId :=
  match v.get? key with
  | some (.int n) => some n.toNat
  | some .null => none
  | _ => some noType

/-- A place in a source. -/
def placeOf : Json → SourcePlace
  | .array (file :: .int line :: .int column :: rest) =>
    ⟨file.string?, line, column, rest.head? matches some (.bool true)⟩
  | _ => .nowhere

/-- The place under a key. -/
def place (v : Json) (key : String) : SourcePlace := ((v.get? key).map placeOf).getD .nowhere

/-- A token; one without a place stands nowhere. -/
def tokenOf : Json → Token
  | .string s => ⟨s, 0, 0⟩
  | .array (.string s :: .int line :: .int column :: _) => ⟨s, line, column⟩
  | _ => ⟨"", 0, 0⟩

/-- The part with a name. -/
def partOf : String → Part
  | "kind" => .kind
  | "spelling" => .spelling
  | "location" => .location
  | "extent" => .extent
  | "get_usr" => .identity
  | _ => .type

/-- The trap of a cursor or a type. -/
def trap? (v : Json) : Option Trap :=
  (v.get? "error").map fun e =>
    ⟨partOf (text e "at" ""), .ofLabel (text e "type" "") (text e "message" "")⟩

/-- A cursor. -/
def cursorOf (noType : TypeId) (v : Json) : Cursor where
  kind := ⟨text v "kind" CursorKind.noDeclaration.name⟩
  spelling := text v "spelling" ""
  location := place v "location"
  start := (((items v "extent")[0]?).map placeOf).getD .nowhere
  stop := (((items v "extent")[1]?).map placeOf).getD .nowhere
  identity := text v "usr" ""
  children := places v "children"
  arguments := places v "arguments"
  tokens := (items v "tokens").map tokenOf
  type? := typeAt v "type" noType
  enumType? := typeAt v "enum_type" noType
  underlyingType? := typeAt v "underlying_type" noType
  resultType? := typeAt v "result_type" noType
  enumValue := int v "enum_value" 0
  comment? := (v.get? "raw_comment").bind Json.string?
  storage := text v "storage" "NONE"
  linkage := text v "linkage" "INVALID"
  isDefinition := flag v "definition"
  isAnonymous := flag v "anonymous"
  bitWidth? := match v.get? "bitfield" with
    | some (.int n) => some n
    | _ => none
  trap? := trap? v

/-- A type. -/
def typeOf (noType : TypeId) (noCursor : CursorId) (v : Json) : CType where
  kind := ⟨text v "kind" TypeKind.invalid.name⟩
  spelling := text v "spelling" ""
  size := int v "size" (-1)
  namedType? := typeAt v "named_type" noType
  pointee? := typeAt v "pointee" noType
  elementType? := typeAt v "element_type" noType
  elementCount := int v "element_count" (-1)
  result? := typeAt v "result" noType
  arguments := places v "arguments"
  isVariadic := flag v "variadic"
  declaration := match v.get? "declaration" with
    | some (.int n) => n.toNat
    | _ => noCursor
  trap? := trap? v

/-- A remark. -/
def remarkOf (v : Json) : Remark := ⟨int v "severity" 0, text v "spelling" "", place v "location"⟩

end UnitDocument

namespace TranslationUnit

open UnitDocument in
/-- Reads a record. -/
def ofJson (v : Json) : TranslationUnit :=
  let cursors := items v "cursors"
  let types := items v "types"
  { cursors := (cursors.map (cursorOf types.length)).toArray
    types := (types.map (typeOf types.length cursors.length)).toArray
    top := places v "top"
    remarks := (items v "diagnostics").map remarkOf }

end TranslationUnit

end DeclGraph
