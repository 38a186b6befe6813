import DeclGraph.Proofs.Batch.Aftermath

/-!
# Workers on their own

A worker only looks at the places of its task (`Task.Owns`), and changes no others.  So a step that
it takes among others is the step that it takes on its own, as long as the others leave these places
alone (`Worker.follows_of_step`); only where the lock leads nowhere it may be refused in other
words.

`Worker.IsSolo` says of a worker among others that it has got as far as on its own, and will come to
the same end.
-/

namespace DeclGraph

open FileSystem

/-- The places of a task: those of its artifact, of its lock and of the file that the artifact is
written to first. -/
def Task.Owns (fs : FileSystem) (t : Task) (p : Place) : Prop :=
  fs.place? t.artifact = some p ∨ fs.place? (lockPath t.artifact) = some p ∨
    fs.place? (tempPath t.artifact) = some p

/-- The end that a task of a batch comes to alone, and the world behind it. -/
def Batch.alone (b : Batch) (frontEnd : FrontEnd) (w : World) (t : Task) : Ending × World :=
  (b.process t).runIn frontEnd w

theorem Crew.Sound.alone (b : Batch) (t : Task) (w : World) :
    Crew.Sound w.files ⟨w, [.start b t]⟩ := by
  have hnew : (Crew.mk w [.start b t]).IsNew := by
    intro u hu
    rw [List.mem_singleton.1 hu]
    rfl
  refine .of_isNew hnew fun u hu u' hu' => ?_
  rw [List.mem_singleton.1 hu, List.mem_singleton.1 hu']
  exact ⟨append_ne_self (by decide), append_ne_self (by decide)⟩

namespace Worker

variable {start : FileSystem} {S : Place → Prop} {v v₁ v₂ : Worker} {w₁ w₂ w₁' w₂' : World}
  {frontEnd frontEnd' : FrontEnd}

/-! ### The same step on other files -/

/-- How a step that leads to `v₂` follows one on other files that leads to `v₁`. -/
inductive Follows (S : Place → Prop) (w₂ : World) (v₁ : Worker) (w₁' : World) (v₂ : Worker)
    (w₂' : World) : Prop
  /-- Both lead to the same, and the files still agree on some places; the others stay. -/
  | keeps (worker : v₂ = v₁) (agree : ∀ p, S p → w₂'.files.get? p = w₁'.files.get? p)
    (same : SameDirectories w₂.files w₂'.files)
    (frame : ∀ p, ¬ S p → w₂'.files.get? p = w₂.files.get? p)
  /-- Both lead to a failure. -/
  | raises {e e' : Failure} (phase : v₁.phase = .finished (.error e))
    (phase' : v₂.phase = .finished (.error e')) (files : w₂'.files = w₂.files)

/-- A change that is answered alike leads to the same. -/
theorem follows_of_change {request : Request (Except FileError Unit)}
    {resume : Except FileError Unit → Transition} {r₁ r₂ : Except FileError FileSystem}
    (hnext : v.phase.next v.batch v.task = .ask request resume)
    (hperform₁ : w₁.perform frontEnd request = w₁.change r₁)
    (hperform₂ : w₂.perform frontEnd' request = w₂.change r₂)
    (hparse : ∀ answer, request.attempt? answer = none)
    (hagree : ∀ p, S p → w₂.files.get? p = w₁.files.get? p) (halike : Alike S w₂.files r₁ r₂)
    (h₁ : v.step frontEnd w₁ = some (v₁, w₁')) (h₂ : v.step frontEnd' w₂ = some (v₂, w₂')) :
    Follows S w₂ v₁ w₁' v₂ w₂' := by
  have hstep₁ := step_of_change hnext hperform₁ hparse h₁
  have hstep₂ := step_of_change hnext hperform₂ hparse h₂
  -- an answer decides what comes next, so only the answers have to be the same
  cases halike with
  | refused e =>
    rcases hstep₁ with ⟨fs', hok, -, -⟩ | ⟨e₁, he₁, hfiles₁, rfl⟩
    · exact absurd hok (by simp)
    rcases hstep₂ with ⟨fs', hok, -, -⟩ | ⟨e₂, he₂, hfiles₂, rfl⟩
    · exact absurd hok (by simp)
    obtain rfl := Except.error.inj he₁
    obtain rfl := Except.error.inj he₂
    rw [← hfiles₁, ← hfiles₂] at hagree
    exact .keeps rfl hagree (hfiles₂ ▸ .refl _) fun p _ => by rw [hfiles₂]
  | changed agree same frame =>
    rcases hstep₁ with ⟨fs₁, hok₁, hfiles₁, rfl⟩ | ⟨e, he, -, -⟩
    · rcases hstep₂ with ⟨fs₂, hok₂, hfiles₂, rfl⟩ | ⟨e, he, -, -⟩
      · obtain rfl := Except.ok.inj hok₁
        obtain rfl := Except.ok.inj hok₂
        rw [← hfiles₂] at same frame agree
        rw [← hfiles₁] at agree
        exact .keeps rfl agree same frame
      · exact absurd he (by simp)
    · exact absurd he (by simp)

theorem follows_of_exists {path : Path} {resume : Except FileError Bool → Transition}
    (hnext : v.phase.next v.batch v.task = .ask (.exists path) resume)
    (hagree : ∀ p, S p → w₂.files.get? p = w₁.files.get? p)
    (hexists : w₂.files.exists path = w₁.files.exists path)
    (h₁ : v.step frontEnd w₁ = some (v₁, w₁')) (h₂ : v.step frontEnd' w₂ = some (v₂, w₂')) :
    Follows S w₂ v₁ w₁' v₂ w₂' := by
  obtain ⟨hfiles₁, rfl⟩ := step_of_exists hnext h₁
  obtain ⟨hfiles₂, rfl⟩ := step_of_exists hnext h₂
  rw [← hfiles₁, ← hfiles₂] at hagree
  exact .keeps (by rw [hexists]) hagree (hfiles₂ ▸ .refl _) fun p _ => by rw [hfiles₂]

/-- A lock that leads nowhere is refused, in whatever words. -/
theorem finished_of_claiming {w w' : World} {v' : Worker} (hphase : v.phase = .claiming)
    (hplace : w.files.place? (lockPath v.artifact) = none) (h : v.step frontEnd w = some (v', w')) :
    (∃ e, v'.phase = .finished (.error e)) ∧ w'.files = w.files := by
  obtain ⟨b, t, phase, attempt?⟩ := v
  obtain rfl : phase = .claiming := hphase
  cases moves_of_step h with
  | claimed made =>
    obtain ⟨p, hp, -⟩ := of_createExclusive made
    exact absurd (hp.symm.trans hplace) (by simp)
  | elsewhere _ there =>
    refine absurd ?_ (at?_ne_none_of_createExclusive there)
    rw [at?, hplace]
    rfl
  | unclaimed same => exact ⟨⟨_, rfl⟩, same⟩

section

variable (hsound : v.Sound start w₁.files) (hsame₁ : SameDirectories start w₁.files)
  (hsame₂ : SameDirectories start w₂.files)
  (hagree : ∀ p, v.task.Owns start p → w₂.files.get? p = w₁.files.get? p)

include hsound hsame₁ hsame₂ hagree

/-- A worker takes the same step wherever the places of its task are the same. -/
theorem follows_of_step
    (hanswers : v.phase = .parsing → frontEnd' v.task.source v.task.options
      = frontEnd v.task.source v.task.options)
    (h₁ : v.step frontEnd w₁ = some (v₁, w₁')) (h₂ : v.step frontEnd' w₂ = some (v₂, w₂')) :
    Follows (v.task.Owns start) w₂ v₁ w₁' v₂ w₂' := by
  have hplace₁ {path : Path} {p : Place} (h : start.place? path = some p) :
      w₁.files.place? path = some p := (hsame₁.place?_eq path).trans h
  have hplace₂ {path : Path} {p : Place} (h : start.place? path = some p) :
      w₂.files.place? path = some p := (hsame₂.place?_eq path).trans h
  have hexists : w₂.files.exists v.artifact = w₁.files.exists v.artifact := by
    refine exists_congr (hsame₁.symm.trans hsame₂) fun p hp => hagree p (.inl ?_)
    exact (hsame₁.place?_eq _).symm.trans hp
  have hunlock (hholds : v.phase.Holds) :
      Alike (v.task.Owns start) w₂.files (w₁.files.unlinkIfThere (lockPath v.artifact))
        (w₂.files.unlinkIfThere (lockPath v.artifact)) := by
    obtain ⟨p, hclaims⟩ := hsound.claims hholds
    exact alike_unlinkIfThere (hplace₁ hclaims.place) (hplace₂ hclaims.place)
      (.inr (.inl hclaims.place)) hagree
  obtain ⟨b, t, phase, attempt?⟩ := v
  cases phase with
  | looking | rechecking => exact follows_of_exists rfl hagree hexists h₁ h₂
  | claiming =>
    cases hlock : start.place? (lockPath t.artifact) with
    | some p =>
      exact follows_of_change rfl rfl rfl (fun _ => rfl) hagree
        (alike_createExclusive (hplace₁ hlock) (hplace₂ hlock) (.inr (.inl hlock)) hagree) h₁ h₂
    | none =>
      -- a file may be in the way in only one of them, but both refuse
      have hlock₁ := (hsame₁.place?_eq (lockPath t.artifact)).trans hlock
      have hlock₂ := (hsame₂.place?_eq (lockPath t.artifact)).trans hlock
      obtain ⟨⟨e, hphase⟩, -⟩ := finished_of_claiming rfl hlock₁ h₁
      obtain ⟨⟨e', hphase'⟩, hfiles⟩ := finished_of_claiming rfl hlock₂ h₂
      exact .raises hphase hphase' hfiles
  | yielding | releasing =>
    exact follows_of_change rfl rfl rfl (fun _ => rfl) hagree (hunlock trivial) h₁ h₂
  | parsing =>
    -- the front ends may differ elsewhere
    rw [step_of_next frontEnd w₁ rfl] at h₁
    rw [step_of_next frontEnd' w₂ rfl] at h₂
    obtain ⟨rfl, rfl⟩ := Prod.mk.inj (Option.some.inj h₁)
    obtain ⟨rfl, rfl⟩ := Prod.mk.inj (Option.some.inj h₂)
    refine .keeps ?_ hagree (.refl _) fun _ _ => rfl
    exact congrArg (fun a => Worker.mk b t (t.afterParse b.settings a).phase (some a))
      (hanswers rfl)
  | opening dump =>
    obtain ⟨⟨d, hmakes⟩, -⟩ := hsound
    have htemp := hmakes.seats.temp
    exact follows_of_change rfl rfl rfl (fun _ => rfl) hagree
      (alike_openEmpty (hplace₁ htemp) (hplace₂ htemp) (.inr (.inr htemp)) hagree) h₁ h₂
  | writing dump text =>
    obtain ⟨⟨d, hmakes⟩, -⟩ := hsound
    have htemp := hmakes.seats.temp
    exact follows_of_change rfl rfl rfl (fun _ => rfl) hagree
      (alike_write (hplace₁ htemp) (hplace₂ htemp) (.inr (.inr htemp)) hagree _) h₁ h₂
  | replacing dump =>
    obtain ⟨-, d, text, hmakes, -⟩ := hsound
    have htemp := hmakes.seats.temp
    have hfile := hmakes.seats.file
    exact follows_of_change rfl rfl rfl (fun _ => rfl) hagree
      (alike_replace (hplace₁ htemp) (hplace₂ htemp) (.inr (.inr htemp)) hagree (hplace₁ hfile)
        (hplace₂ hfile) (.inl hfile)) h₁ h₂
  | discarding dump why =>
    obtain ⟨⟨d, hmakes⟩, -⟩ := hsound
    have htemp := hmakes.seats.temp
    exact follows_of_change rfl rfl rfl (fun _ => rfl) hagree
      (alike_unlinkIfThere (hplace₁ htemp) (hplace₂ htemp) (.inr (.inr htemp)) hagree) h₁ h₂
  | finished ending => exact absurd h₁ (by simp [Worker.step, Phase.next])

end

/-! ### Going on alone -/

theorem attempt?_of_parsing {v' : Worker} {w w' : World} (hphase : v.phase = .parsing)
    (h : v.step frontEnd w = some (v', w')) :
    v'.attempt? = some (frontEnd v.task.source v.task.options) := by
  obtain ⟨b, t, phase, attempt?⟩ := v
  obtain rfl : phase = .parsing := hphase
  cases moves_of_step h with
  | parsed => rfl

/-- A step brings a worker nearer to the end that it comes to alone. -/
theorem run_of_step {v' : Worker} {w w' : World} (h : v.step frontEnd w = some (v', w')) :
    (v'.phase.run v'.batch v'.task).runIn frontEnd w'
      = (v.phase.run v.batch v.task).runIn frontEnd w := by
  cases hnext : v.phase.next v.batch v.task with
  | stop ending =>
    rw [step, hnext] at h
    exact absurd h (by simp)
  | ask request resume =>
    rw [step_of_next frontEnd w hnext] at h
    obtain ⟨rfl, rfl⟩ := Prod.mk.inj (Option.some.inj h)
    exact (Phase.runIn_run frontEnd w hnext).symm

/-- A worker has come to what its task comes to alone, and so have the places of its task. -/
def IsSolo (frontEnd : FrontEnd) (begin : World) (fs : FileSystem) (v : Worker) : Prop :=
  ∃ w, Crew.Reaches ⟨begin, [.start v.batch v.task]⟩ ⟨w, [v]⟩ ∧
    (v.phase.run v.batch v.task).runIn frontEnd w
      = v.batch.alone frontEnd begin v.task ∧
    ∀ p, v.task.Owns begin.files p → fs.get? p = w.files.get? p

namespace IsSolo

variable {begin : World} {fs fs' : FileSystem}

theorem of_start (b : Batch) (t : Task) (frontEnd : FrontEnd) (begin : World) :
    (Worker.start b t).IsSolo frontEnd begin begin.files :=
  ⟨begin, .refl, rfl, fun _ _ => rfl⟩

/-- What happens elsewhere does not matter to a worker. -/
theorem of_unchanged (h : v.IsSolo frontEnd begin fs)
    (heq : ∀ p, v.task.Owns begin.files p → fs'.get? p = fs.get? p) :
    v.IsSolo frontEnd begin fs' := by
  obtain ⟨w, hreach, hrun, hagree⟩ := h
  exact ⟨w, hreach, hrun, fun p hp => (heq p hp).trans (hagree p hp)⟩

/-- The end of a worker is the one that its task comes to alone. -/
theorem ending_eq {ending : Ending} (h : v.IsSolo frontEnd begin fs)
    (hphase : v.phase = .finished ending) :
    (v.batch.alone frontEnd begin v.task).1 = ending ∧
      ∀ p, v.task.Owns begin.files p →
        fs.get? p = (v.batch.alone frontEnd begin v.task).2.files.get? p := by
  obtain ⟨w, -, hrun, hagree⟩ := h
  rw [hphase, Phase.run] at hrun
  rw [← hrun]
  exact ⟨rfl, hagree⟩

/-- A worker that takes a step among others takes it as it would alone, or both fail. -/
theorem step (htree : begin.files.IsTree) (h : v.IsSolo frontEnd begin w₂.files)
    (hsame : SameDirectories begin.files w₂.files)
    (hstep : v.step frontEnd' w₂ = some (v₂, w₂')) (hanswered : v₂.AnsweredBy frontEnd) :
    (v₂.IsSolo frontEnd begin w₂'.files ∧ SameDirectories w₂.files w₂'.files ∧
        ∀ p, ¬ v.task.Owns begin.files p → w₂'.files.get? p = w₂.files.get? p) ∨
      (∃ e, v₂.phase = .finished (.error e)) ∧ w₂'.files = w₂.files ∧
        ∃ e, (v.batch.alone frontEnd begin v.task).1 = .error e := by
  obtain ⟨w₁, hreach, hrun, hagree⟩ := h
  -- alone it can take a step as well
  have hunfinished (ending : Ending) : v.phase ≠ .finished ending := fun hphase => by
    rw [step_eq_none hphase] at hstep
    exact absurd hstep (by simp)
  obtain ⟨v₁, w₁', hstep₁⟩ := exists_step hunfinished frontEnd w₁
  have hsound := (Crew.Sound.alone v.batch v.task begin).reaches htree hreach
  have hanswers : v.phase = .parsing → frontEnd' v.task.source v.task.options
      = frontEnd v.task.source v.task.options := by
    intro hphase
    have hattempt := hanswered _ (attempt?_of_parsing hphase hstep)
    rwa [(task_of_step hstep).2] at hattempt
  have hfollows := follows_of_step (hsound.worker 0 v rfl) hsound.same hsame hagree hanswers hstep₁
    hstep
  obtain ⟨hbatch, htask⟩ := task_of_step hstep₁
  cases hfollows with
  | keeps worker agree same frame =>
    subst worker
    refine .inl ⟨⟨w₁', ?_, ?_, ?_⟩, same, frame⟩
    · rw [hbatch, htask]
      exact hreach.tail ⟨0, frontEnd, v, v₂, w₁', rfl, hstep₁, rfl⟩
    · rw [run_of_step hstep₁, hrun, hbatch, htask]
    · rw [htask]
      exact agree
  | @raises e e' phase phase' files =>
    refine .inr ⟨⟨e', phase'⟩, files, e, ?_⟩
    rw [← hrun, ← run_of_step hstep₁, phase, Phase.run]
    rfl

end IsSolo

end Worker

end DeclGraph
