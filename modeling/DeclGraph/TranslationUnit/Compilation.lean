import DeclGraph.TranslationUnit.Statements

/-!
# Converting units

`TranslationUnit.compilation` converts what stands at the top of a unit: what comes from no file is
left out, and what comes from a system header unless it is wanted.  Macros and attributes are kept
at the top alone; functions, records, enumerations, defined types, variables and namespaces also in
namespaces.
-/

namespace DeclGraph

namespace Convert

/-- The markers of a function. -/
def markersOf (s : ConversionSetting) (c : Cursor) : Convert Value := do
  match ← typeOf c with
  | none => throw (noTypeFault "kind")
  | some id =>
    let t := s.unit.type id
    liftM (t.readable .kind)
    return .tuple ((functionMarkers c.isDefinition (isInline c.spelling c.tokens)
      (t.kind == .prototype && t.isVariadic)).map .text)

/-- The nodes of parameters. -/
def addParameters (s : ConversionSetting) (parent : Value) : List CursorId → Convert (List NodeId)
  | [] => return []
  | argument :: rest => do
    let c := s.unit.cursor argument
    let name ← nameOf c
    let type ← typeNode s (← typeOf c)
    let span ← spanOf c
    let id ← add (.make .parameter
      [("name", .text name), ("type", type), ("span", span), ("parent", parent)])
    return id :: (← addParameters s parent rest)

/-- Adds the body and the attributes of a function to its node; of several bodies the last one
stays. -/
def addFunctionParts (s : ConversionSetting) (id : NodeId) : List CursorTree → Convert Unit
  | [] => return ()
  | t :: rest => do
    let c := s.unit.cursor t.id
    let kind ← kindOf c
    if kind = .block then
      setField id "statements" (.nodes (← addStatements s (.node id) t.children))
    else if kind.isAttribute then append id "attributes" (← addAttribute c (.node id))
    addFunctionParts s id rest

/-- The node of a function. -/
def addFunction (s : ConversionSetting) (t : CursorTree) (parent : Value) : Convert NodeId := do
  let c := s.unit.cursor t.id
  let name ← nameOf c
  let result ← typeNode s c.resultType?
  let markers ← markersOf s c
  let span ← spanOf c
  let id ← add (.make .function [("name", .text name), ("return_type", result), ("flags", markers),
    ("linkage_kind", .text c.linkage.toLower), ("storage_qualifier", .text (storageName c.storage)),
    ("comment", commentOf s c), ("span", span), ("parent", parent)])
  setField id "parameters" (.nodes (← addParameters s (.node id) c.arguments))
  addFunctionParts s id t.children
  return id

mutual

/-- Adds what a cursor declares to a container. -/
def visit (s : ConversionSetting) (container : NodeId) : CursorTree → Convert Unit
  | .node cursor children => do
    let c := s.unit.cursor cursor
    let parent : Value := .node container
    let kind ← kindOf c
    if kind = .function then
      append container "functions" (← addFunction s (.node cursor children) parent)
    else if kind.isRecord then appendOnce container "classes" (← recordNode s cursor parent)
    else if kind = .enum then appendOnce container "enums" (← enumNode s cursor parent)
    else if kind = .typedef then appendOnce container "typedefs" (← typedefNode s cursor parent)
    else if kind = .var then append container "fields" (← fieldNode s cursor parent)
    else if kind = .scope then
      let name ← nameOf c
      let span ← spanOf c
      let id ← add (.make .scope [("name", .text name), ("span", span), ("parent", parent)])
      visitAll s id children
      append container "namespaces" id

/-- Adds what cursors declare to a container. -/
def visitAll (s : ConversionSetting) (container : NodeId) : List CursorTree → Convert Unit
  | [] => return ()
  | t :: rest => do
    visit s container t
    visitAll s container rest

end

/-- Whether what stands at a place is kept. -/
def isKept (s : ConversionSetting) (p : SourcePlace) : Bool :=
  p.file?.isSome && (s.options.systemIncludes || !p.inSystemHeader)

/-- Adds what stands at the top of a unit to its compilation. -/
def visitTop (s : ConversionSetting) (compilation : NodeId) : List CursorId → Convert Unit
  | [] => return ()
  | cursor :: rest => do
    let c := s.unit.cursor cursor
    look c .location
    if isKept s c.location then
      let kind ← kindOf c
      if kind = .definedMacro then
        append compilation "macros" (← addMacro c (.node compilation))
      else if kind.isAttribute then
        append compilation "attributes" (← addAttribute c (.node compilation))
      else visit s compilation (s.unit.tree cursor)
    visitTop s compilation rest

/-- Converts a unit. -/
def convertUnit (s : ConversionSetting) (source : String) : Convert NodeId := do
  let remarks ← s.unit.remarks.mapM addRemark
  let id ← add (.make .compilation
    [("input_file", .text source), ("diagnostics", .nodes remarks)])
  visitTop s id s.unit.top
  return id

end Convert

namespace TranslationUnit

/-- The compilation of a unit. -/
def compilation (u : TranslationUnit) (source : String) (options : ParseOptions) :
    Except Fault Compilation :=
  match (Convert.convertUnit ⟨u, options⟩ source).run .start with
  | .ok (id, s) => .ok ⟨s.graph, .node id⟩
  | .error e => .error e

end TranslationUnit

end DeclGraph
