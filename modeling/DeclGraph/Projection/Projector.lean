import DeclGraph.Projection.Rules

/-!
# Rules that remember their answers

A `Projector` is asked for the fields of classes and keeps every answer that it gives, so that the
rules are applied to a class once; an error is not kept.  Classes are told apart by their identity,
whatever their schemas are: two classes may have one name, one kind or the same fields.
-/

namespace DeclGraph

/-- Rules with the answers that they have given for the classes `κ`. -/
structure Projector (κ : Type) where
  /-- The rules. -/
  rules : Rules
  /-- The selected fields by class. -/
  answers : Entries κ (List String)

namespace Projector

variable {κ : Type} [DecidableEq κ] (schemaOf : κ → Schema)

/-- The selected fields of a class, and the rules that remember them. -/
def ask (p : Projector κ) (c : κ) : Except RulesError (List String) × Projector κ :=
  match Entries.get? c p.answers with
  | some names => (.ok names, p)
  | none =>
    match p.rules.fieldsFor (schemaOf c) with
    | .error e => (.error e, p)
    | .ok names => (.ok names, { p with answers := Entries.put c names p.answers })

/-- The rules once they have been asked for the class of every whitelist; the first thing wrong
with the whitelists, if there is one. -/
def check (known : Entries String κ) (p : Projector κ) :
    Whitelists → Except RulesError (Projector κ)
  | [] => .ok p
  | (kind, _) :: rest =>
    match Entries.get? kind known with
    | none => .error (.unknownKind kind (Entries.keys known))
    | some c =>
      match p.ask schemaOf c with
      | (.error e, _) => .error e
      | (.ok _, p) => check known p rest

/-- The rules with a blacklist and whitelists, if these fit the known kinds.  They remember what
they were asked while this was found out. -/
def make? (blacklist : List String) (whitelists : Whitelists) (known : Entries String κ) :
    Except RulesError (Projector κ) :=
  check schemaOf known ⟨⟨blacklist, whitelists⟩, []⟩ whitelists

end Projector

end DeclGraph
