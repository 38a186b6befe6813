import DeclGraph.Invocation.Basic

/-!
# Options of the front end

A `Profile` is the part of the options that is the same for every file; `ParseOptions.ofInvocation`
adds what an invocation says.  `ParseOptions.arguments` writes the options as a command line.
-/

namespace DeclGraph

/-- The settings that every parse shares. -/
structure Profile where
  /-- Language standard. -/
  dialect : String
  /-- Target architecture. -/
  targetTriple : String
  /-- Compatibility flags. -/
  extensionFlags : List String
  /-- A name defined behind those of the invocation. -/
  sentinelDefine : String
  /-- Whether the bodies of functions are parsed. -/
  functionBodies : Bool
  /-- Whether declarations from system headers are kept. -/
  systemIncludes : Bool
  /-- Whether documentation comments are kept. -/
  comments : Bool
deriving DecidableEq, Repr

namespace Profile

/-- The usual settings. -/
def standard : Profile where
  dialect := "c99"
  targetTriple := "x86_64-pc-windows-msvc"
  extensionFlags := ["-fno-complete-member-pointers", "-fms-extensions", "-fms-compatibility",
    "-fms-compatibility-version=19"]
  sentinelDefine := "CPP_AST_FIXED"
  functionBodies := true
  systemIncludes := false
  comments := false

instance : Inhabited Profile := ⟨standard⟩

end Profile

/-- Everything that a parse is told. -/
structure ParseOptions where
  /-- Definitions, each a name or a name and a value. -/
  defines : List String
  /-- Include directories. -/
  includeFolders : List String
  /-- Language standard. -/
  dialect : String
  /-- Target architecture. -/
  targetTriple : String
  /-- Further arguments. -/
  additionalArguments : List String
  /-- Whether the bodies of functions are parsed. -/
  functionBodies : Bool
  /-- Whether declarations from system headers are kept. -/
  systemIncludes : Bool
  /-- Whether documentation comments are kept. -/
  comments : Bool
deriving DecidableEq, Repr, Inhabited

namespace ParseOptions

/-- A definition as it is written on a command line. -/
def defineText : String × Option String → String
  | (name, none) => name
  | (name, some value) => name ++ "=" ++ value

/-- The options for an invocation.  Its flags and conformance flags are not passed on. -/
def ofInvocation (inv : Invocation) (profile : Profile) : ParseOptions where
  defines := inv.defines.map defineText ++ [profile.sentinelDefine]
  includeFolders := inv.includes
  dialect := profile.dialect
  targetTriple := profile.targetTriple
  additionalArguments := profile.extensionFlags
  functionBodies := profile.functionBodies
  systemIncludes := profile.systemIncludes
  comments := profile.comments

/-- The options as a command line. -/
def arguments (o : ParseOptions) : List String :=
  ["-x", "c", "-std=" ++ o.dialect, "--target=" ++ o.targetTriple] ++ o.additionalArguments
    ++ o.defines.map ("-D" ++ ·) ++ o.includeFolders.map ("-I" ++ ·)
    ++ (if o.comments then ["-fparse-all-comments"] else [])

/-- The flags of a parse: 1 keeps a detailed record of the preprocessor, 64 leaves out the bodies
of functions. -/
def flags (o : ParseOptions) : Nat := if o.functionBodies then 1 else 1 + 64

end ParseOptions

end DeclGraph
