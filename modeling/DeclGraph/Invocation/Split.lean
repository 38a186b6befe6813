import DeclGraph.Invocation.Basic
import DeclGraph.Log

/-!
# Splitting invocations

`Invocation.split` moves chosen inputs into invocations of their own.  What remains of the
invocations comes first, in order; the moved inputs follow, in the order of the invocations and
then of the targets.
-/

namespace DeclGraph

namespace Invocation

/-- Takes the targets out of a list of inputs, one target after another: what is left, and the
targets that were there, in order. -/
def extract : List String → List String → List String × List String
  | [], inputs => (inputs, [])
  | target :: targets, inputs =>
    if inputs.contains target then
      let (left, taken) := extract targets (inputs.filter (· ≠ target))
      (left, target :: taken)
    else extract targets inputs

/-- What remains of an invocation without the targets. -/
def remainder (targets : List String) (inv : Invocation) : Invocation :=
  { inv with inputs := (extract targets inv.inputs).1 }

/-- The invocations of the targets that an invocation has as inputs. -/
def extracted (targets : List String) (inv : Invocation) : List Invocation :=
  (extract targets inv.inputs).2.map fun target => { inv with inputs := [target] }

/-- Every target that is an input moved into an invocation of its own. -/
def split (invs : List Invocation) (targets : List String) : List Invocation :=
  invs.map (remainder targets) ++ invs.flatMap (extracted targets)

/-- What splitting tells: a line for every input that moves. -/
def splitLog (invs : List Invocation) (targets : List String) : List LogLine :=
  (invs.flatMap fun inv => (extract targets inv.inputs).2).map fun target =>
    .debug ("Split input into its own invocation (input=" ++ target ++ ")")

end Invocation

end DeclGraph
