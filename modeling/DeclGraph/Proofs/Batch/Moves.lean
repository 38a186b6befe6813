import DeclGraph.Proofs.Batch.Worker

/-!
# Moves of a worker

`Worker.Moves` says once what one step of a worker can do: which phase it leaves, what the files or
the parser answer, and where the answer leads.  It has one constructor for each answer that makes a
difference, and a refusal leaves the files as they are.

Every step is such a move (`Worker.moves_of_step`), so what steps keep is shown by cases on moves,
and no proof opens `Phase.next` again.
-/

namespace DeclGraph

open FileSystem

namespace Worker

variable {v v' : Worker} {w w' : World} {frontEnd : FrontEnd}

/-! ### Answers -/

/-- A worker that asks whether something is there goes on with the answer. -/
theorem step_of_exists {path : Path} {resume : Except FileError Bool → Transition}
    (hnext : v.phase.next v.batch v.task = .ask (.exists path) resume)
    (h : v.step frontEnd w = some (v', w')) :
    w'.files = w.files ∧
      v' = ⟨v.batch, v.task, (resume (w.files.exists path)).phase, v.attempt?⟩ := by
  rw [step_of_next frontEnd w hnext] at h
  obtain ⟨rfl, rfl⟩ := Prod.mk.inj (Option.some.inj h)
  exact ⟨rfl, rfl⟩

/-- A worker that asks for a change of the files goes on with the answer. -/
theorem step_of_change {request : Request (Except FileError Unit)}
    {resume : Except FileError Unit → Transition} {result : Except FileError FileSystem}
    (hnext : v.phase.next v.batch v.task = .ask request resume)
    (hperform : w.perform frontEnd request = w.change result)
    (hparse : ∀ answer, request.attempt? answer = none)
    (h : v.step frontEnd w = some (v', w')) :
    (∃ fs', result = .ok fs' ∧ w'.files = fs' ∧
        v' = ⟨v.batch, v.task, (resume (.ok ())).phase, v.attempt?⟩) ∨
      ∃ e, result = .error e ∧ w'.files = w.files ∧
        v' = ⟨v.batch, v.task, (resume (.error e)).phase, v.attempt?⟩ := by
  rw [step_of_next frontEnd w hnext, hperform] at h
  obtain ⟨rfl, rfl⟩ := Prod.mk.inj (Option.some.inj h)
  rw [hparse, Option.none_or]
  cases result with
  | ok fs' => exact .inl ⟨fs', rfl, rfl, rfl⟩
  | error e => exact .inr ⟨e, rfl, rfl, rfl⟩

theorem step_of_parse {source : String} {options : ParseOptions} {resume : Attempt → Transition}
    (hnext : v.phase.next v.batch v.task = .ask (.parse source options) resume)
    (h : v.step frontEnd w = some (v', w')) :
    w'.files = w.files ∧ v' = ⟨v.batch, v.task, (resume (frontEnd source options)).phase,
      some (frontEnd source options)⟩ := by
  rw [step_of_next frontEnd w hnext] at h
  obtain ⟨rfl, rfl⟩ := Prod.mk.inj (Option.some.inj h)
  exact ⟨rfl, rfl⟩

/-! ### Moves -/

/-- What one step of a worker does from a phase on, and the worker that it leads to. -/
inductive Moves (frontEnd : FrontEnd) (b : Batch) (t : Task) (attempt? : Option Attempt)
    (fs fs' : FileSystem) : Phase → Worker → Prop
  /-- The artifact is there. -/
  | found (same : fs' = fs) (there : fs.exists t.artifact = .ok true) :
    Moves frontEnd b t attempt? fs fs' .looking ⟨b, t, .finished (.ok t.skipped), attempt?⟩
  /-- The artifact has no name to put beside. -/
  | unnamed (same : fs' = fs) (absent : fs.exists t.artifact = .ok false)
    (name : t.artifact.name = "") :
    Moves frontEnd b t attempt? fs fs' .looking
      ⟨b, t, .finished (.error (.unnamed (.empty t.artifact))), attempt?⟩
  /-- The artifact is not there. -/
  | begins (same : fs' = fs) (absent : fs.exists t.artifact = .ok false)
    (name : t.artifact.name ≠ "") :
    Moves frontEnd b t attempt? fs fs' .looking ⟨b, t, .claiming, attempt?⟩
  /-- Nobody can tell whether the artifact is there. -/
  | hidden {e : FileError} (same : fs' = fs) (hidden : fs.exists t.artifact = .error e) :
    Moves frontEnd b t attempt? fs fs' .looking ⟨b, t, .finished (.error (.file e)), attempt?⟩
  /-- The lock is taken. -/
  | claimed (made : fs.createExclusive (lockPath t.artifact) = .ok fs') :
    Moves frontEnd b t attempt? fs fs' .claiming ⟨b, t, .rechecking, attempt?⟩
  /-- Somebody else has the lock. -/
  | elsewhere {q : Path} (same : fs' = fs)
    (there : fs.createExclusive (lockPath t.artifact) = .error (.refused .exists q)) :
    Moves frontEnd b t attempt? fs fs' .claiming ⟨b, t, .finished (.ok t.skipped), attempt?⟩
  /-- There can be no lock. -/
  | unclaimed {e : FileError} (same : fs' = fs)
    (refused : fs.createExclusive (lockPath t.artifact) = .error e)
    (other : ∀ q, e ≠ .refused .exists q) :
    Moves frontEnd b t attempt? fs fs' .claiming ⟨b, t, .finished (.error (.file e)), attempt?⟩
  /-- The artifact has come up in the meantime. -/
  | late (same : fs' = fs) (there : fs.exists t.artifact = .ok true) :
    Moves frontEnd b t attempt? fs fs' .rechecking ⟨b, t, .yielding, attempt?⟩
  /-- The artifact is still not there. -/
  | clear (same : fs' = fs) (absent : fs.exists t.artifact = .ok false) :
    Moves frontEnd b t attempt? fs fs' .rechecking ⟨b, t, .parsing, attempt?⟩
  /-- Nobody can tell any more whether the artifact is there. -/
  | lost {e : FileError} (same : fs' = fs) (hidden : fs.exists t.artifact = .error e) :
    Moves frontEnd b t attempt? fs fs' .rechecking ⟨b, t, .finished (.error (.file e)), attempt?⟩
  /-- The lock is given back since the artifact is there. -/
  | yielded (gone : fs.unlinkIfThere (lockPath t.artifact) = .ok fs') :
    Moves frontEnd b t attempt? fs fs' .yielding ⟨b, t, .finished (.ok t.skipped), attempt?⟩
  /-- The lock cannot be given back though the artifact is there. -/
  | unyielded {e : FileError} (same : fs' = fs)
    (refused : fs.unlinkIfThere (lockPath t.artifact) = .error e) :
    Moves frontEnd b t attempt? fs fs' .yielding ⟨b, t, .finished (.error (.file e)), attempt?⟩
  /-- The parser has answered. -/
  | parsed (same : fs' = fs) :
    Moves frontEnd b t attempt? fs fs' .parsing
      ⟨b, t, (t.afterParse b.settings (frontEnd t.source t.options)).phase,
        some (frontEnd t.source t.options)⟩
  /-- The file beside the artifact is open, and there is a text to write. -/
  | opened {d : Dump} {text : String} (made : fs.openEmpty (tempPath t.artifact) = .ok fs')
    (dumps : d.graph.dump b.rules d.root = .ok text) :
    Moves frontEnd b t attempt? fs fs' (.opening d) ⟨b, t, .writing d text, attempt?⟩
  /-- The file beside the artifact is open, and there is nothing to write. -/
  | unspelled {d : Dump} {e : Encoding.EncodeError}
    (made : fs.openEmpty (tempPath t.artifact) = .ok fs')
    (refused : d.graph.dump b.rules d.root = .error e) :
    Moves frontEnd b t attempt? fs fs' (.opening d)
      ⟨b, t, .discarding d (.ofEncoding e), attempt?⟩
  /-- The file beside the artifact cannot be opened. -/
  | unopened {d : Dump} {e : FileError} (same : fs' = fs)
    (refused : fs.openEmpty (tempPath t.artifact) = .error e) :
    Moves frontEnd b t attempt? fs fs' (.opening d) ⟨b, t, .discarding d (.file e), attempt?⟩
  /-- The text is written. -/
  | wrote {d : Dump} {text : String}
    (made : fs.write (tempPath t.artifact) (Utf8.encode text) = .ok fs') :
    Moves frontEnd b t attempt? fs fs' (.writing d text) ⟨b, t, .replacing d, attempt?⟩
  /-- The text cannot be written. -/
  | unwritten {d : Dump} {text : String} {e : FileError} (same : fs' = fs)
    (refused : fs.write (tempPath t.artifact) (Utf8.encode text) = .error e) :
    Moves frontEnd b t attempt? fs fs' (.writing d text) ⟨b, t, .discarding d (.file e), attempt?⟩
  /-- The file is in its place. -/
  | replaced {d : Dump} (made : fs.replace (tempPath t.artifact) t.artifact = .ok fs') :
    Moves frontEnd b t attempt? fs fs' (.replacing d)
      ⟨b, t, .releasing (.ok (t.dumped d.parseMs 0 d.report)), attempt?⟩
  /-- The file cannot be moved into its place. -/
  | unreplaced {d : Dump} {e : FileError} (same : fs' = fs)
    (refused : fs.replace (tempPath t.artifact) t.artifact = .error e) :
    Moves frontEnd b t attempt? fs fs' (.replacing d) ⟨b, t, .discarding d (.file e), attempt?⟩
  /-- The file beside the artifact is gone. -/
  | discarded {d : Dump} {why : Failure}
    (gone : fs.unlinkIfThere (tempPath t.artifact) = .ok fs') :
    Moves frontEnd b t attempt? fs fs' (.discarding d why)
      ⟨b, t, (t.failDump d.parseMs d.report why).phase, attempt?⟩
  /-- The file beside the artifact cannot be removed, and the error for that takes the place of the
  first. -/
  | undiscarded {d : Dump} {why : Failure} {e : FileError} (same : fs' = fs)
    (refused : fs.unlinkIfThere (tempPath t.artifact) = .error e) :
    Moves frontEnd b t attempt? fs fs' (.discarding d why)
      ⟨b, t, (t.failDump d.parseMs d.report (.file e)).phase, attempt?⟩
  /-- The lock is given back after the work. -/
  | released {ending : Ending} (gone : fs.unlinkIfThere (lockPath t.artifact) = .ok fs') :
    Moves frontEnd b t attempt? fs fs' (.releasing ending) ⟨b, t, .finished ending, attempt?⟩
  /-- The lock cannot be given back, whatever came of the work. -/
  | unreleased {ending : Ending} {e : FileError} (same : fs' = fs)
    (refused : fs.unlinkIfThere (lockPath t.artifact) = .error e) :
    Moves frontEnd b t attempt? fs fs' (.releasing ending)
      ⟨b, t, .finished (.error (.file e)), attempt?⟩

variable {b : Batch} {t : Task} {phase : Phase} {attempt? : Option Attempt}

/-- Every step is a move. -/
theorem moves_of_step (h : Worker.step frontEnd ⟨b, t, phase, attempt?⟩ w = some (v', w')) :
    Moves frontEnd b t attempt? w.files w'.files phase v' := by
  cases phase with
  | looking =>
    obtain ⟨hsame, rfl⟩ := step_of_exists rfl h
    cases hexists : w.files.exists t.artifact with
    | error e => exact .hidden hsame hexists
    | ok there =>
      cases there with
      | true => exact .found hsame hexists
      | false =>
        dsimp only
        split_ifs with hname
        · exact .unnamed hsame hexists (String.isEmpty_iff.1 hname)
        · exact .begins hsame hexists fun hempty => hname (String.isEmpty_iff.2 hempty)
  | claiming =>
    rcases step_of_change rfl rfl (fun _ => rfl) h with ⟨_, hok, rfl, rfl⟩ | ⟨e, he, hsame, rfl⟩
    · exact .claimed hok
    · -- only a lock that is there counts as one that somebody else has
      dsimp only
      split
      · next heq => exact absurd heq (by simp)
      · next heq =>
        obtain rfl := Except.error.inj heq
        exact .elsewhere hsame he
      · next hother heq =>
        obtain rfl := Except.error.inj heq
        exact .unclaimed hsame he hother
  | rechecking =>
    obtain ⟨hsame, rfl⟩ := step_of_exists rfl h
    cases hexists : w.files.exists t.artifact with
    | error e => exact .lost hsame hexists
    | ok there =>
      cases there with
      | true => exact .late hsame hexists
      | false => exact .clear hsame hexists
  | yielding =>
    rcases step_of_change rfl rfl (fun _ => rfl) h with ⟨_, hok, rfl, rfl⟩ | ⟨e, he, hsame, rfl⟩
    · exact .yielded hok
    · exact .unyielded hsame he
  | parsing =>
    obtain ⟨hsame, rfl⟩ := step_of_parse rfl h
    exact .parsed hsame
  | opening d =>
    rcases step_of_change rfl rfl (fun _ => rfl) h with ⟨_, hok, rfl, rfl⟩ | ⟨e, he, hsame, rfl⟩
    · dsimp only [Task.afterOpening]
      split
      · next hdumps => exact .opened hok hdumps
      · next hrefused => exact .unspelled hok hrefused
    · exact .unopened hsame he
  | writing d text =>
    rcases step_of_change rfl rfl (fun _ => rfl) h with ⟨_, hok, rfl, rfl⟩ | ⟨e, he, hsame, rfl⟩
    · exact .wrote hok
    · exact .unwritten hsame he
  | replacing d =>
    rcases step_of_change rfl rfl (fun _ => rfl) h with ⟨_, hok, rfl, rfl⟩ | ⟨e, he, hsame, rfl⟩
    · exact .replaced hok
    · exact .unreplaced hsame he
  | discarding d why =>
    rcases step_of_change rfl rfl (fun _ => rfl) h with ⟨_, hok, rfl, rfl⟩ | ⟨e, he, hsame, rfl⟩
    · exact .discarded hok
    · exact .undiscarded hsame he
  | releasing ending =>
    rcases step_of_change rfl rfl (fun _ => rfl) h with ⟨_, hok, rfl, rfl⟩ | ⟨e, he, hsame, rfl⟩
    · exact .released hok
    · exact .unreleased hsame he
  | finished ending => exact absurd h (by simp [Worker.step, Phase.next])

end Worker

end DeclGraph
