import DeclGraph.FrontEnd.Basic
import DeclGraph.TranslationUnit.Kinds

/-!
# Translation units

What a compiler library says about a source file: cursors, which stand for declarations, statements
and expressions, and types.  Both are known by their places and refer to each other by places, so
they may do so in circles.  A place where nothing stands holds the empty cursor or no type.

Looking at a cursor or a type may fail; `Cursor.readable` and `CType.readable` tell whether a part
can be looked at.
-/

namespace DeclGraph

/-- A place in a source. -/
structure SourcePlace where
  /-- The file, if there is one. -/
  file? : Option String
  /-- The line. -/
  line : Int
  /-- The column. -/
  column : Int
  /-- Whether the place is in a system header. -/
  inSystemHeader : Bool
deriving DecidableEq, Repr

namespace SourcePlace

/-- No place in particular. -/
def nowhere : SourcePlace := ⟨none, 0, 0, false⟩

instance : Inhabited SourcePlace := ⟨nowhere⟩

end SourcePlace

/-- A token with its place. -/
structure Token where
  /-- What stands there. -/
  spelling : String
  /-- The line. -/
  line : Int
  /-- The column. -/
  column : Int
deriving DecidableEq, Repr

/-- The place of a cursor in its unit. -/
abbrev CursorId := Nat

/-- The place of a type in its unit. -/
abbrev TypeId := Nat

/-- A part of a cursor or a type that may not be looked at. -/
inductive Part
  | kind
  | spelling
  | location
  | extent
  | identity
  | type
deriving DecidableEq, Repr

/-- What happens to who looks at a part. -/
structure Trap where
  /-- The part. -/
  part : Part
  /-- What goes wrong. -/
  fault : Fault
deriving DecidableEq, Repr

/-- Looking at a part behind a trap. -/
def Trap.check (trap? : Option Trap) (part : Part) : Except Fault Unit :=
  match trap? with
  | some trap => if trap.part = part then .error trap.fault else .ok ()
  | none => .ok ()

/-- A cursor. -/
structure Cursor where
  /-- What the cursor stands for. -/
  kind : CursorKind
  /-- Its name. -/
  spelling : String
  /-- Where it stands. -/
  location : SourcePlace
  /-- Where it starts. -/
  start : SourcePlace
  /-- Where it ends. -/
  stop : SourcePlace
  /-- What tells its declaration from all others, or nothing. -/
  identity : String
  /-- The cursors in it. -/
  children : List CursorId
  /-- The cursors of its arguments. -/
  arguments : List CursorId
  /-- Its tokens. -/
  tokens : List Token
  /-- Its type. -/
  type? : Option TypeId
  /-- The type of its constants. -/
  enumType? : Option TypeId
  /-- The type that it is a name for. -/
  underlyingType? : Option TypeId
  /-- The type of its results. -/
  resultType? : Option TypeId
  /-- Its value. -/
  enumValue : Int
  /-- The comment in front of it. -/
  comment? : Option String
  /-- Its storage class. -/
  storage : String
  /-- Its linkage. -/
  linkage : String
  /-- Whether it defines what it declares. -/
  isDefinition : Bool
  /-- Whether it has no name of its own. -/
  isAnonymous : Bool
  /-- Its width in bits, if it has one. -/
  bitWidth? : Option Int
  /-- The part that cannot be looked at. -/
  trap? : Option Trap
deriving DecidableEq, Repr

/-- A type. -/
structure CType where
  /-- What sort of type it is. -/
  kind : TypeKind
  /-- How it is written. -/
  spelling : String
  /-- Its size in octets; negative where it has none. -/
  size : Int
  /-- The type that it is a longer name for. -/
  namedType? : Option TypeId
  /-- The type that it points to. -/
  pointee? : Option TypeId
  /-- The type of its elements. -/
  elementType? : Option TypeId
  /-- The number of its elements. -/
  elementCount : Int
  /-- The type of its results. -/
  result? : Option TypeId
  /-- The types of its arguments. -/
  arguments : List TypeId
  /-- Whether it takes any further arguments. -/
  isVariadic : Bool
  /-- The cursor of its declaration. -/
  declaration : CursorId
  /-- The part that cannot be looked at. -/
  trap? : Option Trap
deriving DecidableEq, Repr

/-- A remark of the compiler; the greater the severity, the worse. -/
structure Remark where
  /-- How bad it is. -/
  severity : Int
  /-- What it says. -/
  spelling : String
  /-- Where. -/
  location : SourcePlace
deriving DecidableEq, Repr

/-- What a compiler library says about a source file. -/
structure TranslationUnit where
  /-- The cursors. -/
  cursors : Array Cursor
  /-- The types. -/
  types : Array CType
  /-- The cursors at the top. -/
  top : List CursorId
  /-- The remarks. -/
  remarks : List Remark
deriving DecidableEq, Repr

namespace Cursor

/-- The cursor that stands for nothing. -/
def empty (noType : TypeId) : Cursor where
  kind := .noDeclaration
  spelling := ""
  location := .nowhere
  start := .nowhere
  stop := .nowhere
  identity := ""
  children := []
  arguments := []
  tokens := []
  type? := some noType
  enumType? := some noType
  underlyingType? := some noType
  resultType? := some noType
  enumValue := 0
  comment? := none
  storage := "NONE"
  linkage := "INVALID"
  isDefinition := false
  isAnonymous := false
  bitWidth? := none
  trap? := none

/-- Looks at a part of a cursor. -/
def readable (c : Cursor) (part : Part) : Except Fault Unit := Trap.check c.trap? part

end Cursor

namespace CType

/-- What stands where there is no type. -/
def invalid (noType : TypeId) (noCursor : CursorId) : CType where
  kind := .invalid
  spelling := ""
  size := -1
  namedType? := some noType
  pointee? := some noType
  elementType? := some noType
  elementCount := -1
  result? := some noType
  arguments := []
  isVariadic := false
  declaration := noCursor
  trap? := none

/-- Looks at a part of a type. -/
def readable (t : CType) (part : Part) : Except Fault Unit := Trap.check t.trap? part

end CType

namespace TranslationUnit

/-- A place where no type stands. -/
def noType (u : TranslationUnit) : TypeId := u.types.size

/-- A place where no cursor stands. -/
def noCursor (u : TranslationUnit) : CursorId := u.cursors.size

/-- The cursor at a place. -/
def cursor (u : TranslationUnit) (id : CursorId) : Cursor :=
  u.cursors.getD id (Cursor.empty u.noType)

/-- The type at a place. -/
def type (u : TranslationUnit) (id : TypeId) : CType :=
  u.types.getD id (CType.invalid u.noType u.noCursor)

end TranslationUnit

end DeclGraph
