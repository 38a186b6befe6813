import DeclGraph.Proofs.Batch.Worker

/-!
# What a worker may rely on

`Worker.Sound` says for each phase what a worker knows of the files: the lock that it holds is
there and was not there at the start, the artifact that it works on is not there, and the artifact
that it has dumped is there with the whole text.  All of that is about the three places of its
artifact (`Worker.Guards`), so it stays true while nobody else touches these
(`Worker.Sound.of_unchanged`).
-/

namespace DeclGraph

open FileSystem

/-- A lock is taken that was not there at the start. -/
structure Claims (start fs : FileSystem) (artifact : Path) (p : Place) : Prop where
  /-- The artifact has a name. -/
  named : artifact.name ≠ ""
  /-- The lock is at its place. -/
  place : start.place? (lockPath artifact) = some p
  /-- It was not there at the start. -/
  new : start.get? p = none
  /-- It is there. -/
  there : fs.get? p = some (.file [])

/-- A lock is taken, and the artifact is not there. -/
structure Makes (start fs : FileSystem) (artifact : Path) (d : Place) : Prop where
  /-- The lock is taken. -/
  claims : Claims start fs artifact (d ++ [artifact.name ++ ".lock"])
  /-- The artifact has its seat. -/
  seats : start.Seats artifact d
  /-- It was not there at the start. -/
  new : start.get? (d ++ [artifact.name]) = none
  /-- It is not there. -/
  absent : fs.get? (d ++ [artifact.name]) = none

namespace Worker

variable {start fs fs' : FileSystem} {v u : Worker} {p : Place} {text : String}

/-- The artifact of a worker is there, with the whole text that the worker was to write, and it was
not there at the start. -/
def Completes (start fs : FileSystem) (v : Worker) : Prop :=
  v.Dumping ∧ ∃ d text, start.Seats v.artifact d ∧ start.get? (d ++ [v.artifact.name]) = none ∧
    v.Writes text ∧ fs.get? (d ++ [v.artifact.name]) = some (.file (Utf8.encode text))

/-- What a worker knows of the files, by its phase. -/
def Sound (start fs : FileSystem) (v : Worker) : Prop :=
  match v.phase with
  | .looking => True
  | .claiming => v.artifact.name ≠ ""
  | .rechecking | .yielding => ∃ p, Claims start fs v.artifact p
  | .parsing => ∃ d, Makes start fs v.artifact d
  | .opening dump => (∃ d, Makes start fs v.artifact d) ∧ v.Opens dump
  | .writing dump text => (∃ d, Makes start fs v.artifact d) ∧ v.Opens dump ∧
      dump.graph.dump v.batch.rules dump.root = .ok text
  | .replacing dump => v.Opens dump ∧ ∃ d text, Makes start fs v.artifact d ∧
      dump.graph.dump v.batch.rules dump.root = .ok text ∧
      fs.get? (d ++ [v.artifact.name ++ ".tmp"]) = some (.file (Utf8.encode text))
  | .discarding dump _ => (∃ d, Makes start fs v.artifact d) ∧ v.Opens dump
  | .releasing ending => (∃ p, Claims start fs v.artifact p) ∧
      (ending.IsDumped → v.Completes start fs)
  | .finished ending => ending.IsDumped → v.Completes start fs

namespace Sound

/-- Who works makes its artifact. -/
theorem makes (h : v.Sound start fs) (hworks : v.phase.Works) :
    ∃ d, Makes start fs v.artifact d := by
  obtain ⟨b, t, phase, attempt?⟩ := v
  cases phase with
  | parsing => exact h
  | opening | writing | discarding => exact h.1
  | replacing =>
    obtain ⟨-, d, -, hmakes, -⟩ := h
    exact ⟨d, hmakes⟩
  | looking | claiming | rechecking | yielding | releasing | finished => exact absurd hworks id

/-- Who holds a lock claims its artifact. -/
theorem claims (h : v.Sound start fs) (hholds : v.phase.Holds) :
    ∃ p, Claims start fs v.artifact p := by
  by_cases hworks : v.phase.Works
  · obtain ⟨d, hd⟩ := h.makes hworks
    exact ⟨_, hd.claims⟩
  · obtain ⟨b, t, phase, attempt?⟩ := v
    cases phase with
    | rechecking | yielding => exact h
    | releasing => exact h.1
    | looking | claiming | finished => exact absurd hholds id
    | parsing | opening | writing | replacing | discarding => exact absurd trivial hworks

/-- Who has dumped has its artifact complete. -/
theorem completes (h : v.Sound start fs) (hdumped : v.phase.Dumped) : v.Completes start fs := by
  obtain ⟨ending, hending, hdumps⟩ := hdumped
  obtain ⟨b, t, phase, attempt?⟩ := v
  cases phase with
  | releasing =>
    obtain rfl := Option.some.inj hending
    exact h.2 hdumps
  | finished =>
    obtain rfl := Option.some.inj hending
    exact h hdumps
  | looking | claiming | rechecking | yielding | parsing | opening | writing | replacing
  | discarding => exact absurd hending (by simp [Phase.ending?])

end Sound

/-- The places that a worker relies on. -/
inductive Guards (start : FileSystem) (v : Worker) (p : Place) : Prop
  | lock (holds : v.phase.Holds) (place : start.place? (lockPath v.artifact) = some p)
  | temp (works : v.phase.Works) (place : start.place? (tempPath v.artifact) = some p)
  | artifact (busy : v.phase.Works ∨ v.phase.Dumped) (place : start.place? v.artifact = some p)

end Worker

theorem Claims.of_unchanged {start fs fs' : FileSystem} {artifact : Path} {p : Place}
    (h : Claims start fs artifact p) (hp : fs'.get? p = fs.get? p) :
    Claims start fs' artifact p :=
  ⟨h.named, h.place, h.new, hp.trans h.there⟩

theorem Makes.of_unchanged {start fs fs' : FileSystem} {artifact : Path} {d : Place}
    (h : Makes start fs artifact d)
    (hlock : fs'.get? (d ++ [artifact.name ++ ".lock"])
      = fs.get? (d ++ [artifact.name ++ ".lock"]))
    (hfile : fs'.get? (d ++ [artifact.name]) = fs.get? (d ++ [artifact.name])) :
    Makes start fs' artifact d :=
  ⟨h.claims.of_unchanged hlock, h.seats, h.new, hfile.trans h.absent⟩

namespace Worker

variable {start fs fs' : FileSystem} {v u : Worker} {p : Place} {text : String}

/-- What a worker knows stays true while the places that it relies on are left alone. -/
theorem Sound.of_unchanged (h : v.Sound start fs)
    (hguards : ∀ p, v.Guards start p → fs'.get? p = fs.get? p) : v.Sound start fs' := by
  -- each thing that a worker may know is about a place that it guards
  have hclaims {p : Place} (hholds : v.phase.Holds) (hclaims : Claims start fs v.artifact p) :
      Claims start fs' v.artifact p :=
    hclaims.of_unchanged (hguards p (.lock hholds hclaims.place))
  have hmakes {d : Place} (hworks : v.phase.Works) (hmakes : Makes start fs v.artifact d) :
      Makes start fs' v.artifact d :=
    hmakes.of_unchanged (hguards _ (.lock hworks.holds hmakes.seats.lock))
      (hguards _ (.artifact (.inl hworks) hmakes.seats.file))
  have hcompletes (hdumped : v.phase.Dumped) (h : v.Completes start fs) :
      v.Completes start fs' := by
    obtain ⟨hdumping, d, text, hseats, hnew, hwrites, hthere⟩ := h
    exact ⟨hdumping, d, text, hseats, hnew, hwrites,
      (hguards _ (.artifact (.inr hdumped) hseats.file)).trans hthere⟩
  obtain ⟨b, t, phase, attempt?⟩ := v
  cases phase with
  | looking => exact trivial
  | claiming => exact h
  | rechecking | yielding => exact h.imp fun p => hclaims trivial
  | parsing => exact h.imp fun d => hmakes trivial
  | opening | writing | discarding => exact ⟨h.1.imp fun d => hmakes trivial, h.2⟩
  | replacing =>
    obtain ⟨hopens, d, text, hmake, htext, htemp⟩ := h
    refine ⟨hopens, d, text, hmakes trivial hmake, htext, ?_⟩
    exact (hguards _ (.temp trivial hmake.seats.temp)).trans htemp
  | releasing =>
    exact ⟨h.1.imp fun p => hclaims trivial, fun hdumps => hcompletes ⟨_, rfl, hdumps⟩ (h.2 hdumps)⟩
  | finished => exact fun hdumps => hcompletes ⟨_, rfl, hdumps⟩ (h hdumps)

theorem Sound.exists_concat (h : v.Sound start fs) (hbusy : v.phase.Works ∨ v.phase.Dumped)
    (hplace : start.place? v.artifact = some p) : ∃ d, p = d ++ [v.artifact.name] := by
  rcases hbusy with hworks | hdumped
  · obtain ⟨d, hmakes⟩ := h.makes hworks
    exact ⟨d, Option.some.inj (hplace.symm.trans hmakes.seats.file)⟩
  · obtain ⟨-, d, text, hseats, -, -, -⟩ := h.completes hdumped
    exact ⟨d, Option.some.inj (hplace.symm.trans hseats.file)⟩

end Worker

end DeclGraph
