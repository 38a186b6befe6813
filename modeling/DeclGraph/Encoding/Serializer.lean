import DeclGraph.Encoding.Basic
import DeclGraph.Projection.Projector

/-!
# Encoding with rules that remember

The two walks of `Graph.encode`, one that counts references and one that writes, with a `Projector`
in the place of its rules: the class of a node is asked for when the fields of the node are needed,
and the rules that remember the answer go on to the next question, also when encoding fails.
-/

namespace DeclGraph

open Encoding

namespace Projector

variable {κ : Type} [DecidableEq κ] (schemaOf : κ → Schema) (g : Graph) (classOf : NodeId → κ)

/-- Visits the values on a stack, the last part of a value first; `visits` holds the nodes visited
so far, the latest first. -/
def visitLoop : Nat → Projector κ → List Value → List NodeId →
    Except RulesError (List NodeId) × Projector κ
  | 0, p, _, visits => (.ok visits, p)
  | _ + 1, p, [], visits => (.ok visits, p)
  | fuel + 1, p, .node id :: stack, visits =>
    if visits.contains id then visitLoop fuel p stack (id :: visits)
    else
      match p.ask schemaOf (classOf id) with
      | (.error e, p) => (.error e, p)
      | (.ok names, p) =>
        visitLoop fuel p ((names.map (g.node id).get).reverse ++ stack) (id :: visits)
  | fuel + 1, p, v :: stack, visits => visitLoop fuel p ((parts v).reverse ++ stack) visits

/-- Writes a value into a cell. -/
def write (shared : NodeId → Bool) (p : Projector κ) (e : Emission) (v : Value) (cell : CellId) :
    Except EncodeError Emission × Projector κ :=
  match v with
  | .node id =>
    match Emission.identifier? e.named id with
    | some ref => (.ok (e.fill cell (.object [(refKey, .string ref)])), p)
    | none =>
      match p.ask schemaOf (classOf id) with
      | (.error err, p) => (.error (.rules err), p)
      | (.ok names, p) =>
        let entries := names.map fun name => (name, (g.node id).get name)
        if shared id then
          let leading := [(idKey, Json.string (Emission.identifier e.named.length))]
          (.ok ({ e with named := e.named ++ [id] }.openObject cell leading entries), p)
        else (.ok (e.openObject cell [] entries), p)
  | v => (Emission.write g p.rules shared e v cell, p)

/-- Writes the values on the stack. -/
def run (shared : NodeId → Bool) :
    Nat → Projector κ → Emission → Except EncodeError Emission × Projector κ
  | 0, p, e => (.ok e, p)
  | fuel + 1, p, e =>
    match e.stack with
    | [] => (.ok e, p)
    | (v, cell) :: stack =>
      match p.write schemaOf g classOf shared { e with stack } v cell with
      | (.ok e, p) => run shared fuel p e
      | (.error err, p) => (.error err, p)

/-- The JSON value of what can be reached from `root` through the selected fields. -/
def encode (p : Projector κ) (root : Value) : Except EncodeError Json × Projector κ :=
  match visitLoop schemaOf g classOf (steps g root) p [root] [] with
  | (.error e, p) => (.error (.rules e), p)
  | (.ok visits, p) =>
    match run schemaOf g classOf (isShared visits) (steps g root) p (.start root) with
    | (.error e, p) => (.error e, p)
    | (.ok e, p) => (.ok (Draft.read e.cells), p)

end Projector

end DeclGraph
