import DeclGraph.Batch.Task
import DeclGraph.Program.Basic

/-!
# Claims

A claim on an artifact is a lock beside it.  Taking the lock is one step, so of all that want it
only one gets it; who has it looks for the artifact once more, and gives the lock back if somebody
else has finished in the meantime.
-/

namespace DeclGraph

/-- A claim on an artifact. -/
structure Claim where
  /-- The artifact. -/
  artifact : Path
  /-- Whether the lock is taken by this claim. -/
  held : Bool
deriving DecidableEq, Repr

namespace Claim

/-- A claim on an artifact, not taken yet.  An artifact without a name cannot be claimed. -/
def on? (artifact : Path) : Except Failure Claim :=
  if artifact.name.isEmpty then .error (.unnamed (.empty artifact)) else .ok ⟨artifact, false⟩

/-- Gives the lock back, if this claim has taken it. -/
def release (c : Claim) : Program (Except FileError Unit × Claim) :=
  if c.held then do
    match ← Program.request (.unlinkIfThere (lockPath c.artifact)) with
    | .ok () => return (.ok (), { c with held := false })
    | .error e => return (.error e, c)
  else return (.ok (), c)

/-- Takes the lock; `false` when somebody has it or the artifact is there. -/
def acquire (c : Claim) : Program (Except FileError Bool × Claim) := do
  match ← Program.request (.createExclusive (lockPath c.artifact)) with
  | .error (.refused .exists _) => return (.ok false, c)
  | .error e => return (.error e, c)
  | .ok () =>
    let c := { c with held := true }
    match ← Program.request (.exists c.artifact) with
    | .ok false => return (.ok true, c)
    | .ok true =>
      let (answer, c) ← c.release
      return (answer.map fun () => false, c)
    | .error e => return (.error e, c)

end Claim

end DeclGraph
