import DeclGraph.Graph.Basic
import DeclGraph.Json.Reader
import DeclGraph.Text.Similarity

/-!
# Projection rules

`Rules` decide which fields of a node are written.  A whitelist for a kind replaces the blacklist
for that kind; a kind without one shows every field that is not blacklisted.  `Rules.make?` refuses
whitelists for unknown kinds and whitelists that name a field which their kind lacks, and
`Rules.fieldsFor` selects the fields of a type, always in the order in which the type has them.
-/

namespace DeclGraph

/-- What rules see of a type: its name, the name they know it by, and the names of its fields if
its values are nodes. -/
structure Schema where
  /-- The name of the type. -/
  label : String
  /-- The name that rules know the type by. -/
  kindName : String
  /-- The names of the fields, where the values of the type are nodes. -/
  fieldNames? : Option (List String)
deriving DecidableEq, Repr

namespace Schema

/-- The schema of a kind. -/
def ofKind (kind : Kind) : Schema := ⟨kind.label, kind.name, some kind.fieldNames⟩

/-- The schema of a type whose values are no nodes. -/
def plain (label : String) : Schema := ⟨label, label, none⟩

/-- The schema of a made-up type. -/
def custom (label : String) (kindName? : Option String) (fieldNames : List String) : Schema :=
  ⟨label, kindName?.getD label, some fieldNames⟩

end Schema

/-- The schema of a node. -/
def Node.schema (n : Node) : Schema := ⟨n.shape.label, n.shape.kindName, some n.fieldNames⟩

/-- Why rules cannot be applied. -/
inductive RulesError
  /-- The text is no JSON document. -/
  | notJson (fault : Json.Fault)
  /-- The document is no object. -/
  | notObject
  /-- The blacklist is no list of texts. -/
  | malformedBlacklist
  /-- The whitelists are no object. -/
  | malformedWhitelists
  /-- A whitelist is no list of texts. -/
  | malformedWhitelist (kind : String)
  /-- There is a whitelist for a kind that nobody knows. -/
  | unknownKind (kind : String) (known : List String)
  /-- The values of a type are no nodes. -/
  | notProjectable (label : String)
  /-- A whitelist names a field that its kind lacks. -/
  | missingField (kind field : String) (available : List String)
deriving DecidableEq, Repr

/-- The words for an error. -/
def RulesError.message : RulesError → String
  | .notJson fault => "Rules file is not valid JSON: " ++ fault.message
  | .notObject => "Rules file must contain an object."
  | .malformedBlacklist => "'blacklist' must be a list of field names."
  | .malformedWhitelists => "'whitelists' must map kinds to field lists."
  | .malformedWhitelist kind => "Whitelist for '" ++ kind ++ "' must be a list of field names."
  | .unknownKind kind known =>
    "Whitelist for unknown declaration kind '" ++ kind ++ "'" ++ suggestionText kind known ++ "."
  | .notProjectable label => label ++ " is not a projectable type."
  | .missingField kind field available =>
    "Whitelist for '" ++ kind ++ "' names missing field '" ++ field ++ "'"
      ++ suggestionText field available ++ "."

/-- Lists of field names by kind. -/
abbrev Whitelists := Entries String (List String)

/-- Which fields are written. -/
structure Rules where
  /-- The fields left out of kinds without a whitelist. -/
  blacklist : List String
  /-- The fields written of kinds with one. -/
  whitelists : Whitelists
deriving DecidableEq, Repr

namespace Rules

/-- The usual blacklist, in order. -/
def standardBlacklist : List String := ["comment", "parent", "span", "visibility"]

/-- The usual whitelists. -/
def standardWhitelists : Whitelists :=
  [("enum", ["name", "size_of", "type_kind", "items", "span"]),
    ("enum_item", ["name", "value"]),
    ("class", ["name", "size_of", "fields", "class_kind", "span"]),
    ("field", ["name", "type", "bit_field_width", "storage_qualifier", "init_value"]),
    ("primitive_type", ["kind", "size_of", "type_kind"]),
    ("typedef", ["name", "size_of", "type_kind", "element_type"]),
    ("pointer_type", ["size_of", "type_kind", "element_type"]),
    ("array_type", ["size", "size_of", "type_kind", "element_type"]),
    ("function_type", ["type_kind", "return_type", "parameters"]),
    ("parameter", ["name", "type"]),
    ("function",
      ["name", "flags", "linkage_kind", "parameters", "return_type", "storage_qualifier"])]

/-- The usual rules. -/
def standard : Rules := ⟨standardBlacklist, standardWhitelists⟩

instance : Inhabited Rules := ⟨standard⟩

/-- The rules that leave nothing out. -/
def everything : Rules := ⟨[], []⟩

/-- The fields written of a type, in the order in which the type has them. -/
def fieldsFor (rules : Rules) (schema : Schema) : Except RulesError (List String) :=
  match schema.fieldNames? with
  | none => .error (.notProjectable schema.label)
  | some available =>
    match Entries.get? schema.kindName rules.whitelists with
    | none => .ok (available.filter fun name => !rules.blacklist.contains name)
    | some whitelist =>
      match whitelist.find? fun name => !available.contains name with
      | some name => .error (.missingField schema.kindName name available)
      | none => .ok (available.filter fun name => whitelist.contains name)

/-- The kinds that rules may speak of when nothing else is said. -/
def standardKinds : Entries String Schema := Kind.declarations.map fun k => (k.name, .ofKind k)

/-- The first thing wrong with whitelists for the known kinds. -/
def check (rules : Rules) (known : Entries String Schema) : Whitelists → Except RulesError Unit
  | [] => .ok ()
  | (kind, _) :: rest =>
    match Entries.get? kind known with
    | none => .error (.unknownKind kind (Entries.keys known))
    | some schema => do
      let _ ← rules.fieldsFor schema
      check rules known rest

/-- The rules with a blacklist and whitelists, if these fit the known kinds. -/
def make? (blacklist : List String) (whitelists : Whitelists) (known : Entries String Schema) :
    Except RulesError Rules := do
  let rules : Rules := ⟨blacklist, whitelists⟩
  check rules known whitelists
  return rules

/-- The names of the blacklist in order, each once. -/
def sortedBlacklist (rules : Rules) : List String :=
  (rules.blacklist.eraseDups).mergeSort fun a b => !decide (b < a)

end Rules

end DeclGraph
