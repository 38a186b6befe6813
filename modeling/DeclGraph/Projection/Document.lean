import DeclGraph.Projection.Rules

/-!
# Rules documents

A document of rules is an object that may have a `blacklist` and `whitelists`; what it does not
have is as usual.  `RulesDocument.ofText` reads one and `RulesDocument.rules` gives its rules.
-/

namespace DeclGraph

/-- What a document of rules says. -/
structure RulesDocument where
  /-- The blacklist as it is written. -/
  blacklist : List String
  /-- The whitelists in order. -/
  whitelists : Whitelists
deriving DecidableEq, Repr

namespace RulesDocument

/-- Reads the whitelists of a document. -/
def readWhitelists : List (String × Json) → Except RulesError Whitelists
  | [] => .ok []
  | (kind, names) :: rest =>
    match names.strings? with
    | none => .error (.malformedWhitelist kind)
    | some names => do
      let rest ← readWhitelists rest
      return (kind, names) :: rest

/-- Reads a decoded document. -/
def ofJson (document : Json) : Except RulesError RulesDocument :=
  match document with
  | .object entries => do
    let blacklist ← match Entries.get? "blacklist" entries with
      | none => .ok Rules.standardBlacklist
      | some v =>
        match v.strings? with
        | some names => .ok names
        | none => .error .malformedBlacklist
    let whitelists ← match Entries.get? "whitelists" entries with
      | none => .ok Rules.standardWhitelists
      | some (.object lists) => readWhitelists lists
      | some _ => .error .malformedWhitelists
    return ⟨blacklist, whitelists⟩
  | _ => .error .notObject

/-- Reads the text of a document. -/
def ofText (text : String) : Except RulesError RulesDocument :=
  match Json.parse text with
  | .ok v => ofJson v
  | .error fault => .error (.notJson fault)

/-- The rules of a document. -/
def rules (document : RulesDocument) : Except RulesError Rules :=
  Rules.make? document.blacklist document.whitelists Rules.standardKinds

end RulesDocument

end DeclGraph
