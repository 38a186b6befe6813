/-!
# Loops

A loop is given by its step: from a state the step leads to the next one, fails, or says that the
loop is over.  `Loop.Ends` tells how a loop comes to its end, without any bound on the number of its
passes; it holds of no loop that goes on for ever.  A loop that is run with a bound does the same if
the bound is not below the number of passes (`Loop.Ends.run_eq`).

`Loop.exists_ends` is how loops are shown to end: an invariant that knows the passes made so far
bounds their number.
-/

namespace DeclGraph

namespace Loop

variable {σ ε : Type} {step : σ → Option (Except ε σ)} {s : σ} {done passes : List σ}
  {r : Except ε σ}

/-- The loop that starts in a state ends: `passes` are the states in which its passes begin, and
`r` is the state that is left or the error. -/
inductive Ends (step : σ → Option (Except ε σ)) : σ → List σ → Except ε σ → Prop
  /-- The loop is over. -/
  | finished {s : σ} (h : step s = none) : Ends step s [] (.ok s)
  /-- The pass fails. -/
  | failed {s : σ} {e : ε} (h : step s = some (.error e)) : Ends step s [s] (.error e)
  /-- The pass leads to the next state. -/
  | next {s s' : σ} {passes : List σ} {r : Except ε σ} (h : step s = some (.ok s'))
    (rest : Ends step s' passes r) : Ends step s (s :: passes) r

/-- Runs a loop for a number of passes at most. -/
def run (step : σ → Option (Except ε σ)) : Nat → σ → Except ε σ
  | 0, s => .ok s
  | fuel + 1, s =>
    match step s with
    | none => .ok s
    | some (.error e) => .error e
    | some (.ok s') => run step fuel s'

/-- With enough passes a loop comes to its end. -/
theorem Ends.run_eq (h : Ends step s passes r) {fuel : Nat} (hfuel : passes.length ≤ fuel) :
    run step fuel s = r := by
  induction h generalizing fuel with
  | finished h =>
    cases fuel with
    | zero => rfl
    | succ fuel => rw [run, h]
  | failed h =>
    obtain ⟨fuel, rfl⟩ := Nat.exists_eq_add_of_le' hfuel
    rw [List.length_singleton, run, h]
  | @next s s' passes r h rest ih =>
    obtain ⟨fuel, rfl⟩ := Nat.exists_eq_add_of_le' hfuel
    rw [List.length_cons, ← Nat.add_assoc, run, h]
    exact ih (Nat.le_add_left ..)

/-- A loop ends if an invariant bounds the number of passes.  What follows from the invariant at
the end of the loop, and when a pass fails, holds of all its passes. -/
theorem exists_ends {I : List σ → σ → Prop} {P : List σ → Prop} {bound : Nat}
    (hstep : ∀ done s s', I done s → step s = some (.ok s') → I (done ++ [s]) s')
    (hbound : ∀ done s r, I done s → step s = some r → done.length < bound)
    (hfinished : ∀ done s, I done s → step s = none → P done)
    (hfailed : ∀ done s e, I done s → step s = some (.error e) → P (done ++ [s]))
    (h : I done s) : ∃ passes r, Ends step s passes r ∧ P (done ++ passes) := by
  -- Every pass that leads on makes the distance to the bound smaller.
  induction hn : bound - done.length using Nat.strongRecOn generalizing done s with
  | ind n ih =>
    match hs : step s with
    | none => exact ⟨[], .ok s, .finished hs, by simpa using hfinished done s h hs⟩
    | some (.error e) => exact ⟨[s], .error e, .failed hs, hfailed done s e h hs⟩
    | some (.ok s') =>
      have hlt := hbound done s _ h hs
      obtain ⟨passes, r, hends, hP⟩ := ih (bound - (done ++ [s]).length)
        (by rw [List.length_append, List.length_singleton]; omega) (hstep done s s' h hs) rfl
      exact ⟨s :: passes, r, .next hs hends, by simpa using hP⟩

end Loop

end DeclGraph
