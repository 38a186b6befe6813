import DeclGraph.Invocation.Basic
import DeclGraph.Json.Reader
import DeclGraph.Json.Printer

/-!
# Invocation documents

A document is a list of objects, one for each invocation.  `Invocation.listOfJson` reads a decoded
document and tells the first thing wrong with it; `Invocation.listToJson` gives the document of
invocations.
-/

namespace DeclGraph

namespace Invocation

/-- Why a document holds no invocations. -/
inductive DocumentError
  /-- The text is no JSON document. -/
  | notJson (fault : Json.Fault)
  /-- The document is no list. -/
  | notList
  /-- An entry is no object. -/
  | notObject (index : Nat)
  /-- An entry has no inputs. -/
  | noInputs (index : Nat)
  /-- The compiler of an entry is no text. -/
  | compilerNotText (index : Nat)
  /-- Something that lists texts does not. -/
  | notTexts (index : Nat) (key : String)
  /-- Something that names settings does not. -/
  | notSettings (index : Nat) (key : String)
  /-- A named setting is neither a text nor absent. -/
  | settingNotText (index : Nat) (key name : String)
deriving DecidableEq, Repr

/-- The words for an error. -/
def DocumentError.message : DocumentError → String
  | .notJson fault => "Batch config is not valid JSON: " ++ fault.message
  | .notList => "Batch config must be a list of invocations."
  | .notObject i => "Invocation #" ++ toString i ++ " is not an object."
  | .noInputs i => "Invocation #" ++ toString i ++ " has no 'input' list."
  | .compilerNotText i => "Invocation #" ++ toString i ++ ": 'cmd' must be a string."
  | .notTexts i key =>
    "Invocation #" ++ toString i ++ ": '" ++ key ++ "' must be a list of strings."
  | .notSettings i key => "Invocation #" ++ toString i ++ ": '" ++ key ++ "' must be an object."
  | .settingNotText i key name =>
    "Invocation #" ++ toString i ++ ": '" ++ key ++ "." ++ name ++ "' must be a string or null."

/-- Reads the name of the compiler; whatever counts as absent is the empty name. -/
def readCompiler (index : Nat) (entry : Json) : Except DocumentError String :=
  match entry.get? "cmd" with
  | none => .ok ""
  | some (.string s) => .ok s
  | some v => if v.isFalsy then .ok "" else .error (.compilerNotText index)

/-- Reads a list of texts; an absent one is empty. -/
def readTexts (index : Nat) (entry : Json) (key : String) : Except DocumentError (List String) :=
  match entry.get? key with
  | none | some .null => .ok []
  | some v =>
    match v.strings? with
    | some texts => .ok texts
    | none => .error (.notTexts index key)

/-- Reads a named setting. -/
def readSetting (index : Nat) (key name : String) (v : Json) :
    Except DocumentError (Option String) :=
  match v with
  | .null => .ok none
  | .string s => .ok (some s)
  | _ => .error (.settingNotText index key name)

/-- Reads named settings; absent ones are empty. -/
def readSettings (index : Nat) (entry : Json) (key : String) :
    Except DocumentError NamedSettings :=
  match entry.get? key with
  | none | some .null => .ok []
  | some (.object entries) =>
    entries.mapM fun (name, v) => (readSetting index key name v).map (name, ·)
  | some _ => .error (.notSettings index key)

/-- Reads the entry at a place of a document. -/
def ofJson (index : Nat) (entry : Json) : Except DocumentError Invocation :=
  match entry with
  | .object entries =>
    if (Entries.get? "input" entries).isNone then .error (.noInputs index)
    else do
      let compiler ← readCompiler index entry
      let includes ← readTexts index entry "include"
      let inputs ← readTexts index entry "input"
      let flags ← readTexts index entry "flag"
      let conformance ← readTexts index entry "zc"
      let defines ← readSettings index entry "define"
      let files ← readSettings index entry "file"
      let warnings ← readSettings index entry "warn"
      return ⟨compiler, includes, inputs, flags, conformance, defines, files, warnings⟩
  | _ => .error (.notObject index)

/-- Reads the entries of a document from a place on. -/
def listFrom : Nat → List Json → Except DocumentError (List Invocation)
  | _, [] => .ok []
  | index, entry :: rest => do
    let inv ← ofJson index entry
    let invs ← listFrom (index + 1) rest
    return inv :: invs

/-- Reads a decoded document. -/
def listOfJson : Json → Except DocumentError (List Invocation)
  | .array entries => listFrom 0 entries
  | _ => .error .notList

/-- Reads the text of a document. -/
def listOfText (text : String) : Except DocumentError (List Invocation) :=
  match Json.parse text with
  | .ok v => listOfJson v
  | .error fault => .error (.notJson fault)

/-- The document form of a list of texts. -/
def textsToJson (texts : List String) : Json := .array (texts.map .string)

/-- The document form of named settings. -/
def settingsToJson (settings : NamedSettings) : Json :=
  .object (settings.map fun (name, value) => (name, match value with
    | some s => .string s
    | none => .null))

/-- The entry of an invocation. -/
def toJson (inv : Invocation) : Json :=
  .object [("cmd", .string inv.compiler), ("zc", textsToJson inv.conformance),
    ("warn", settingsToJson inv.warnings), ("flag", textsToJson inv.flags),
    ("file", settingsToJson inv.files), ("input", textsToJson inv.inputs),
    ("include", textsToJson inv.includes), ("define", settingsToJson inv.defines)]

/-- The document of invocations. -/
def listToJson (invs : List Invocation) : Json := .array (invs.map toJson)

/-- The text of the document of invocations. -/
def listToText (invs : List Invocation) : String := (listToJson invs).renderIndented

end Invocation

end DeclGraph
