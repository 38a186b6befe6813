import DeclGraph.Entries
import DeclGraph.Path.Join

/-!
# Compiler invocations

An `Invocation` is one compiler command as it was captured.  `Invocation.rebase` reads its inputs
and include directories below the directory the compiler ran in.  `Invocation.agrees` compares two
invocations without regard to the order of their named settings.
-/

namespace DeclGraph

/-- Named settings, each with a value or without one. -/
abbrev NamedSettings := Entries String (Option String)

/-- One captured compiler command. -/
structure Invocation where
  /-- The name of the compiler. -/
  compiler : String
  /-- Include directories. -/
  includes : List String
  /-- Source files. -/
  inputs : List String
  /-- Flags. -/
  flags : List String
  /-- Conformance flags. -/
  conformance : List String
  /-- Defined names and their values. -/
  defines : NamedSettings
  /-- Output categories and their paths. -/
  files : NamedSettings
  /-- Warning codes and what is done about them. -/
  warnings : NamedSettings
deriving DecidableEq, Repr

namespace Invocation

/-- The invocation with nothing in it. -/
def empty : Invocation := ⟨"", [], [], [], [], [], [], []⟩

instance : Inhabited Invocation := ⟨empty⟩

/-- The invocation with its inputs and include directories read below a directory. -/
def rebase (base : String) (inv : Invocation) : Invocation :=
  { inv with
    inputs := inv.inputs.map (joinText base)
    includes := inv.includes.map (joinText base) }

/-- Whether two collections of settings hold the same entries, in any order. -/
def sameSettings (a b : NamedSettings) : Bool :=
  a.length == b.length && a.all fun (k, v) => Entries.get? k b == some v

/-- Whether two invocations are alike up to the order of their named settings. -/
def agrees (a b : Invocation) : Bool :=
  a.compiler == b.compiler && a.includes == b.includes && a.inputs == b.inputs
    && a.flags == b.flags && a.conformance == b.conformance && sameSettings a.defines b.defines
    && sameSettings a.files b.files && sameSettings a.warnings b.warnings

end Invocation

end DeclGraph
