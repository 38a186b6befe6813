import DeclGraph.Proofs.Batch.Moves
import DeclGraph.Proofs.Batch.Sound

/-!
# Steps of a worker

`Worker.Effect` says what one step of a worker does: which places it may change, what it accounts
for afterwards (`Worker.Touches`), and that it still knows what it may rely on.  Every step has such
an effect (`Worker.effect_of_step`), one case for each phase.
-/

namespace DeclGraph

open FileSystem

namespace Worker

variable {start fs fs' : FileSystem} {v v' : Worker} {w w' : World} {frontEnd : FrontEnd}
  {p d : Place}

/-! ### Effects -/

/-- The places where a worker accounts for what differs from the start. -/
inductive Touches (start fs : FileSystem) (v : Worker) (p : Place) : Prop
  /-- The lock that the worker holds. -/
  | lock (holds : v.phase.Holds) (place : start.place? (lockPath v.artifact) = some p)
  /-- The file that the worker writes first. -/
  | temp (busy : v.phase.UsesTemp) (place : start.place? (tempPath v.artifact) = some p)
    (file : start.get? p ≠ some .directory)
  /-- The artifact that the worker has dumped. -/
  | artifact (dumped : v.phase.Dumped) (place : start.place? v.artifact = some p)
  /-- An older file where the worker wrote first, which is gone. -/
  | stale (settled : v.phase.ending? ≠ none) (dumping : v.Dumping)
    (place : start.place? (tempPath v.artifact) = some p)
    (was : ∃ content, start.get? p = some (.file content)) (gone : fs.get? p = none)

/-- A worker accounts for a place as long as that stays as it is. -/
theorem Touches.of_get?_eq (h : v.Touches start fs p) (heq : fs'.get? p = fs.get? p) :
    v.Touches start fs' p := by
  cases h with
  | lock holds place => exact .lock holds place
  | temp busy place file => exact .temp busy place file
  | artifact dumped place => exact .artifact dumped place
  | stale settled dumping place was gone =>
    exact .stale settled dumping place was (heq.trans gone)

/-- Who works accounts for its lock and for the file beside its artifact. -/
theorem Touches.of_works (h : v.Touches start fs p) (hworks : v.phase.Works) :
    start.place? (lockPath v.artifact) = some p ∨
      start.place? (tempPath v.artifact) = some p ∧ start.get? p ≠ some .directory := by
  cases h with
  | lock holds place => exact .inl place
  | temp busy place file => exact .inr ⟨place, file⟩
  | artifact dumped => exact absurd dumped (Phase.not_dumped hworks.ending?_eq)
  | stale settled => exact absurd hworks.ending?_eq settled

/-- The places that a step of a worker may change. -/
inductive MayChange (start fs : FileSystem) (v : Worker) (p : Place) : Prop
  /-- A lock that nobody holds. -/
  | claim (place : start.place? (lockPath v.artifact) = some p) (free : fs.get? p = none)
  /-- The lock that the worker holds. -/
  | lock (holds : v.phase.Holds) (place : start.place? (lockPath v.artifact) = some p)
  /-- The file that the worker writes first. -/
  | temp (works : v.phase.Works) (place : start.place? (tempPath v.artifact) = some p)
  /-- The artifact that the worker makes. -/
  | artifact (works : v.phase.Works) (place : start.place? v.artifact = some p)

/-- What a step of a worker does to the files and to what it knows. -/
structure Effect (start : FileSystem) (v : Worker) (fs : FileSystem) (v' : Worker)
    (fs' : FileSystem) : Prop where
  /-- The directories stay. -/
  same : SameDirectories fs fs'
  /-- The artifact is the same. -/
  artifact_eq : v'.artifact = v.artifact
  /-- The worker knows what it may rely on. -/
  sound : v'.Sound start fs'
  /-- A lock that is taken was free. -/
  holds : v'.phase.Holds → v.phase.Holds ∨
    ∃ p, start.place? (lockPath v.artifact) = some p ∧ fs.get? p = none
  /-- An artifact that is dumped was not there. -/
  dumps : v'.phase.Dumped → v.phase.Dumped ∨
    ∃ p, start.place? v.artifact = some p ∧ fs.get? p = none
  /-- What was dumped stays so. -/
  dumped : v.phase.Dumped → v'.phase.Dumped
  /-- What changes is accounted for. -/
  changes : ∀ p, fs'.get? p = fs.get? p ∨
    (v.MayChange start fs p ∧ (fs'.get? p = start.get? p ∨ v'.Touches start fs' p))
  /-- What was accounted for still is. -/
  touches : ∀ p, fs'.get? p = fs.get? p → v.Touches start fs p →
    fs'.get? p = start.get? p ∨ v'.Touches start fs' p

namespace Effect

/-- A step that leaves the files alone. -/
theorem of_unchanged (hartifact : v'.artifact = v.artifact) (hsound : v'.Sound start fs)
    (hholds : v'.phase.Holds ↔ v.phase.Holds)
    (htemp : v.phase.UsesTemp → v'.phase.UsesTemp ∨
      ∀ p, start.place? (tempPath v.artifact) = some p → start.get? p = some .directory)
    (hending : v.phase.ending? = none) (hdumped : ¬ v'.phase.Dumped) :
    Effect start v fs v' fs := by
  refine ⟨.refl fs, hartifact, hsound, fun h => .inl (hholds.1 h), fun h => absurd h hdumped,
    fun h => absurd h (Phase.not_dumped hending), fun p => .inl rfl, ?_⟩
  intro p _ htouches
  right
  cases htouches with
  | lock holds place => exact .lock (hholds.2 holds) (by rwa [hartifact])
  | temp busy place file =>
    rcases htemp busy with huses | hdir
    · exact .temp huses (by rwa [hartifact]) file
    · exact absurd (hdir p place) file
  | artifact dumped => exact absurd dumped (Phase.not_dumped hending)
  | stale settled => exact absurd hending settled

/-- A step that takes the lock. -/
theorem of_claim (hphase : v.phase = .claiming) (hphase' : v'.phase = .rechecking)
    (hartifact : v'.artifact = v.artifact) (hplace : start.place? (lockPath v.artifact) = some p)
    (hfree : fs.get? p = none) (hsound : v'.Sound start (fs.put p (.file []))) :
    Effect start v fs v' (fs.put p (.file [])) := by
  have hdir : fs.get? p ≠ some .directory := by rw [hfree]; simp
  have hdumped : ¬ v'.phase.Dumped := Phase.not_dumped (by rw [hphase']; rfl)
  refine ⟨sameDirectories_put hdir _, hartifact, hsound, fun _ => .inr ⟨p, hplace, hfree⟩,
    fun h => absurd h hdumped, fun h => absurd h (Phase.not_dumped (by rw [hphase]; rfl)), ?_, ?_⟩
  · intro q
    by_cases hq : q = p
    · subst hq
      refine .inr ⟨.claim hplace hfree, .inr (.lock ?_ (by rwa [hartifact]))⟩
      rw [hphase']; trivial
    · left
      rw [get?_put (ne_nil_of_get? hdir), if_neg hq]
  · -- before the claim there is nothing to account for
    intro q _ htouches
    cases htouches with
    | lock holds => rw [hphase] at holds; exact absurd holds id
    | temp busy => rw [hphase] at busy; exact absurd busy id
    | artifact dumped => exact absurd dumped (Phase.not_dumped (by rw [hphase]; rfl))
    | stale settled => rw [hphase] at settled; exact absurd rfl settled

/-- A step that gives the lock back. -/
theorem of_unlock {ending : Ending} (hholds : v.phase.Holds) (hworks : ¬ v.phase.Works)
    (hclaims : Claims start fs v.artifact p) (hphase' : v'.phase = .finished ending)
    (hdumped : v.phase.Dumped ↔ ending.IsDumped) (htask : v'.task = v.task)
    (hdumping : v.Dumping → v'.Dumping) (hsound : v'.Sound start fs')
    (hsame : SameDirectories fs fs')
    (hentry : ∀ q, fs'.get? q = if q = p then none else fs.get? q) :
    Effect start v fs v' fs' := by
  have hartifact : v'.artifact = v.artifact := congrArg Task.artifact htask
  refine ⟨hsame, hartifact, hsound, fun _ => .inl hholds, ?_,
    fun h => ⟨ending, by rw [hphase']; rfl, hdumped.1 h⟩, ?_, ?_⟩
  · rintro ⟨ending', heq, hdumps⟩
    rw [hphase'] at heq
    obtain rfl := Option.some.inj heq
    exact .inl (hdumped.2 hdumps)
  · intro q
    rw [hentry]
    split_ifs with hq
    · subst hq
      exact .inr ⟨.lock hholds hclaims.place, .inl hclaims.new.symm⟩
    · exact .inl rfl
  · intro q hq htouches
    cases htouches with
    | lock holds place =>
      -- the lock is gone, as it was at the start
      left
      obtain rfl := Option.some.inj (place.symm.trans hclaims.place)
      rw [hentry, if_pos rfl, hclaims.new]
    | temp busy => exact absurd busy.works hworks
    | artifact dumped place =>
      exact .inr (.artifact ⟨ending, by rw [hphase']; rfl, hdumped.1 dumped⟩ (by rwa [hartifact]))
    | stale settled dumping place was gone =>
      refine .inr (.stale ?_ (hdumping dumping) (by rwa [hartifact]) was (hq.trans gone))
      rw [hphase']
      exact Option.some_ne_none _

/-- A step that writes beside the artifact. -/
theorem of_write {content : List UInt8} (hsame : SameDirectories start fs)
    (hworks : v.phase.Works) (huses : v'.phase.UsesTemp) (hartifact : v'.artifact = v.artifact)
    (hplace : start.place? (tempPath v.artifact) = some p) (hdir : fs.get? p ≠ some .directory)
    (hsound : v'.Sound start (fs.put p (.file content))) :
    Effect start v fs v' (fs.put p (.file content)) := by
  have hending : v.phase.ending? = none := hworks.ending?_eq
  have hdumped : ¬ v'.phase.Dumped := Phase.not_dumped huses.works.ending?_eq
  refine ⟨sameDirectories_put hdir _, hartifact, hsound, fun _ => .inl hworks.holds,
    fun h => absurd h hdumped, fun h => absurd h (Phase.not_dumped hending), ?_, ?_⟩
  · intro q
    rw [get?_put (ne_nil_of_get? hdir)]
    split_ifs with hq
    · -- no directory stands there now, so none stood there at the start
      subst hq
      refine .inr ⟨.temp hworks hplace, .inr (.temp huses (by rwa [hartifact]) ?_)⟩
      exact fun h => hdir ((hsame.iff _).2 h)
    · exact .inl rfl
  · intro q _ htouches
    right
    rcases htouches.of_works hworks with hlock | ⟨htemp, hfile⟩
    · exact .lock huses.works.holds (by rwa [hartifact])
    · exact .temp huses (by rwa [hartifact]) hfile

/-- Where the file beside the artifact is gone, either nothing was at the start or an older file. -/
theorem gone_temp (hsettled : v.phase.ending? ≠ none) (hdumping : v.Dumping)
    (hplace : start.place? (tempPath v.artifact) = some p)
    (hdir : start.get? p ≠ some .directory) (hgone : fs.get? p = none) :
    fs.get? p = start.get? p ∨ v.Touches start fs p := by
  cases hentry : start.get? p with
  | none => exact .inl hgone
  | some e =>
    cases e with
    | directory => exact absurd hentry hdir
    | file content => exact .inr (.stale hsettled hdumping hplace ⟨content, hentry⟩ hgone)

/-- A step that removes the file beside the artifact. -/
theorem of_discard {ending : Ending} (hsame : SameDirectories start fs)
    (hworks : v.phase.Works) (hphase' : v'.phase = .releasing ending) (hdumps : ¬ ending.IsDumped)
    (hartifact : v'.artifact = v.artifact) (hdumping : v'.Dumping)
    (hplace : start.place? (tempPath v.artifact) = some p) (hdir : fs.get? p ≠ some .directory)
    (hsound : v'.Sound start fs') (hsame' : SameDirectories fs fs')
    (hentry : ∀ q, fs'.get? q = if q = p then none else fs.get? q) :
    Effect start v fs v' fs' := by
  have hending : v.phase.ending? = none := hworks.ending?_eq
  have hsettled : v'.phase.ending? ≠ none := by rw [hphase']; exact Option.some_ne_none _
  -- what was beside the artifact at the start may be gone now, and then it is accounted for
  have hgone : fs'.get? p = start.get? p ∨ v'.Touches start fs' p :=
    gone_temp hsettled hdumping (by rwa [hartifact]) (fun h => hdir ((hsame.iff _).2 h))
      (by rw [hentry, if_pos rfl])
  have hdumped : ¬ v'.phase.Dumped :=
    Phase.not_dumped_of_ending (by rw [hphase']; rfl) hdumps
  refine ⟨hsame', hartifact, hsound, fun _ => .inl hworks.holds, fun h => absurd h hdumped,
    fun h => absurd h (Phase.not_dumped hending), ?_, ?_⟩
  · intro q
    by_cases hq : q = p
    · rw [hq]
      exact .inr ⟨.temp hworks hplace, hgone⟩
    · exact .inl (by rw [hentry, if_neg hq])
  · intro q _ htouches
    rcases htouches.of_works hworks with hlock | ⟨htemp, -⟩
    · exact .inr (.lock (by rw [hphase']; trivial) (by rwa [hartifact]))
    · rw [Option.some.inj (htemp.symm.trans hplace)]
      exact hgone

/-- A step that moves what is written beside the artifact to its place. -/
theorem of_replace {ending : Ending} {content : List UInt8} (hsame : SameDirectories start fs)
    (hworks : v.phase.Works) (hphase' : v'.phase = .releasing ending) (hdumps : ending.IsDumped)
    (hartifact : v'.artifact = v.artifact) (hdumping : v'.Dumping)
    (hmakes : Makes start fs v.artifact d)
    (htemp : fs.get? (d ++ [v.artifact.name ++ ".tmp"]) = some (.file content))
    (hsound : v'.Sound start fs') (hsame' : SameDirectories fs fs')
    (hentry : ∀ q, fs'.get? q = if q = d ++ [v.artifact.name] then some (.file content)
      else if q = d ++ [v.artifact.name ++ ".tmp"] then none else fs.get? q) :
    Effect start v fs v' fs' := by
  have hending : v.phase.ending? = none := hworks.ending?_eq
  have hsettled : v'.phase.ending? ≠ none := by rw [hphase']; exact Option.some_ne_none _
  have hne : d ++ [v.artifact.name ++ ".tmp"] ≠ d ++ [v.artifact.name] :=
    (beside_ne d d _ (by decide)).symm
  have hdir : start.get? (d ++ [v.artifact.name ++ ".tmp"]) ≠ some .directory := by
    intro h
    rw [(hsame.iff _).2 h] at htemp
    exact absurd htemp (by simp)
  -- the artifact is new, but an older file may have stood beside it
  have hgone : fs'.get? (d ++ [v.artifact.name ++ ".tmp"])
        = start.get? (d ++ [v.artifact.name ++ ".tmp"]) ∨
      v'.Touches start fs' (d ++ [v.artifact.name ++ ".tmp"]) :=
    gone_temp hsettled hdumping (by rw [hartifact]; exact hmakes.seats.temp) hdir
      (by rw [hentry, if_neg hne, if_pos rfl])
  refine ⟨hsame', hartifact, hsound, fun _ => .inl hworks.holds,
    fun _ => .inr ⟨_, hmakes.seats.file, hmakes.absent⟩,
    fun h => absurd h (Phase.not_dumped hending), ?_, ?_⟩
  · intro q
    by_cases hq : q = d ++ [v.artifact.name]
    · rw [hq]
      refine .inr ⟨.artifact hworks hmakes.seats.file, .inr (.artifact ?_ ?_)⟩
      · exact ⟨ending, by rw [hphase']; rfl, hdumps⟩
      · rw [hartifact]; exact hmakes.seats.file
    · by_cases hq' : q = d ++ [v.artifact.name ++ ".tmp"]
      · rw [hq']
        exact .inr ⟨.temp hworks hmakes.seats.temp, hgone⟩
      · exact .inl (by rw [hentry, if_neg hq, if_neg hq'])
  · intro q _ htouches
    rcases htouches.of_works hworks with hlock | ⟨hbeside, -⟩
    · exact .inr (.lock (by rw [hphase']; trivial) (by rwa [hartifact]))
    · rw [Option.some.inj (hbeside.symm.trans hmakes.seats.temp)]
      exact hgone

end Effect

/-! ### Steps -/

theorem exists_unlock {artifact : Path} (hsame : SameDirectories start fs)
    (h : Claims start fs artifact p) :
    ∃ fs', fs.unlinkIfThere (lockPath artifact) = .ok fs' ∧ SameDirectories fs fs' ∧
      ∀ q, fs'.get? q = if q = p then none else fs.get? q :=
  exists_unlinkIfThere (by rw [hsame.place?_eq, h.place]) (by rw [h.there]; simp)

theorem makes_put_temp {artifact : Path} (content : List UInt8) (h : Makes start fs artifact d)
    (hdir : fs.get? (d ++ [artifact.name ++ ".tmp"]) ≠ some .directory) :
    Makes start (fs.put (d ++ [artifact.name ++ ".tmp"]) (.file content)) artifact d := by
  have hne := ne_nil_of_get? hdir
  refine h.of_unchanged ?_ ?_
  · rw [get?_put hne, if_neg (lock_ne_temp d d _ _)]
  · rw [get?_put hne, if_neg (beside_ne d d _ (by decide))]

variable (htree : start.IsTree) (hsame : SameDirectories start w.files)
  (hsound : v.Sound start w.files)

include hsame hsound in
/-- What a step does with the lock taken that is given back without more ado. -/
theorem effect_yielding (hphase : v.phase = .yielding) (h : v.step frontEnd w = some (v', w')) :
    Effect start v w.files v' w'.files := by
  obtain ⟨b, t, phase, attempt?⟩ := v
  obtain rfl : phase = .yielding := hphase
  obtain ⟨p, hclaims⟩ := hsound
  obtain ⟨fs', hok, hsame', hentry⟩ := exists_unlock hsame hclaims
  cases moves_of_step h with
  | yielded gone =>
    obtain rfl := Except.ok.inj (hok.symm.trans gone)
    refine .of_unlock trivial id hclaims rfl (iff_of_false ?_ t.not_isDumped_skipped) rfl id ?_
      hsame' hentry
    · exact Phase.not_dumped rfl
    · exact fun hdumps => absurd hdumps t.not_isDumped_skipped
  | unyielded _ refused => exact absurd (hok.symm.trans refused) (by simp)

include hsame hsound in
/-- What a step does that gives the lock back in the end. -/
theorem effect_releasing {ending : Ending} (hphase : v.phase = .releasing ending)
    (h : v.step frontEnd w = some (v', w')) : Effect start v w.files v' w'.files := by
  obtain ⟨b, t, phase, attempt?⟩ := v
  obtain rfl : phase = .releasing ending := hphase
  obtain ⟨⟨p, hclaims⟩, hcompletes⟩ := hsound
  obtain ⟨fs', hok, hsame', hentry⟩ := exists_unlock hsame hclaims
  cases moves_of_step h with
  | released gone =>
    obtain rfl := Except.ok.inj (hok.symm.trans gone)
    refine .of_unlock trivial id hclaims rfl ?_ rfl id ?_ hsame' hentry
    · constructor
      · rintro ⟨ending', heq, hdumps⟩
        rwa [Option.some.inj heq]
      · exact fun hdumps => ⟨ending, rfl, hdumps⟩
    · -- an artifact is no lock of its own, so it outlives the lock
      intro hdumps
      obtain ⟨hdumping, d, text, hseats, hnew, hwrites, hthere⟩ := hcompletes hdumps
      obtain ⟨d', rfl⟩ := exists_concat_of_place? (by decide) hclaims.place
      refine ⟨hdumping, d, text, hseats, hnew, hwrites, ?_⟩
      rw [hentry, if_neg (beside_ne d d' _ (by decide))]
      exact hthere
  | unreleased _ refused => exact absurd (hok.symm.trans refused) (by simp)

/-- What a step does that looks for the artifact first. -/
theorem effect_looking (hphase : v.phase = .looking) (h : v.step frontEnd w = some (v', w')) :
    Effect start v w.files v' w'.files := by
  obtain ⟨b, t, phase, attempt?⟩ := v
  obtain rfl : phase = .looking := hphase
  cases moves_of_step h with
  | found same =>
    rw [same]
    exact .of_unchanged rfl (fun hdumps => absurd hdumps t.not_isDumped_skipped) Iff.rfl .inl rfl
      (Phase.not_dumped_of_ending rfl t.not_isDumped_skipped)
  | begins same _ name =>
    rw [same]
    exact .of_unchanged rfl name Iff.rfl .inl rfl (Phase.not_dumped rfl)
  | unnamed same | hidden same =>
    rw [same]
    exact .of_unchanged rfl (fun hdumps => absurd hdumps id) Iff.rfl .inl rfl
      (Phase.not_dumped_of_ending rfl id)

include hsame hsound in
/-- What a step does that tries to take the lock. -/
theorem effect_claiming (hphase : v.phase = .claiming)
    (hnew : ∀ p, start.place? (lockPath v.artifact) = some p → w.files.get? p = none →
      start.get? p = none)
    (h : v.step frontEnd w = some (v', w')) : Effect start v w.files v' w'.files := by
  obtain ⟨b, t, phase, attempt?⟩ := v
  obtain rfl : phase = .claiming := hphase
  cases moves_of_step h with
  | claimed made =>
    -- nothing is there now, and nothing was there at the start
    obtain ⟨p, hplace, hfree, hput⟩ := of_createExclusive made
    rw [hsame.place?_eq] at hplace
    rw [hput]
    refine .of_claim rfl rfl rfl hplace hfree ⟨p, hsound, hplace, hnew p hplace hfree, ?_⟩
    rw [get?_put (ne_nil_of_get? (by rw [hfree]; simp)), if_pos rfl]
  | elsewhere same =>
    rw [same]
    exact .of_unchanged rfl (fun hdumps => absurd hdumps t.not_isDumped_skipped) Iff.rfl .inl rfl
      (Phase.not_dumped_of_ending rfl t.not_isDumped_skipped)
  | unclaimed same =>
    rw [same]
    exact .of_unchanged rfl (fun hdumps => absurd hdumps id) Iff.rfl .inl rfl
      (Phase.not_dumped_of_ending rfl id)

include htree hsame hsound in
/-- What a step does that looks for the artifact once more. -/
theorem effect_rechecking (hphase : v.phase = .rechecking)
    (hnew : ∀ d, start.Seats v.artifact d → w.files.get? (d ++ [v.artifact.name]) = none →
      start.get? (d ++ [v.artifact.name]) = none)
    (h : v.step frontEnd w = some (v', w')) : Effect start v w.files v' w'.files := by
  obtain ⟨b, t, phase, attempt?⟩ := v
  obtain rfl : phase = .rechecking := hphase
  obtain ⟨p, hclaims⟩ := hsound
  obtain ⟨d, hd, rfl, hseat⟩ := exists_seat hclaims.named hclaims.place
  have hlooks : w.files.exists t.artifact = .ok true ∨ start.Seats t.artifact d ∧
      w.files.exists t.artifact = .ok (w.files.get? (d ++ [t.artifact.name])).isSome := by
    split_ifs at hseat with hup
    · -- a name that leads upwards means a directory
      left
      rw [exists_eq_of_place? (by rw [hsame.place?_eq, hseat]), (hsame.iff _).2 (htree.dropLast hd)]
      rfl
    · exact .inr ⟨hseat, exists_eq_of_place? (by rw [hsame.place?_eq, hseat.file])⟩
  cases moves_of_step h with
  | late same =>
    rw [same]
    exact .of_unchanged rfl ⟨_, hclaims⟩ Iff.rfl .inl rfl (Phase.not_dumped rfl)
  | clear same absent =>
    rcases hlooks with hthere | ⟨hseat, hthere⟩
    · exact absurd (absent.symm.trans hthere) (by simp)
    · have hentry : w.files.get? (d ++ [t.artifact.name]) = none := by
        simpa using (Except.ok.inj (absent.symm.trans hthere)).symm
      rw [same]
      exact .of_unchanged rfl ⟨d, hclaims, hseat, hnew d hseat hentry, hentry⟩ Iff.rfl .inl rfl
        (Phase.not_dumped rfl)
  | lost _ hidden =>
    rcases hlooks with hthere | ⟨-, hthere⟩
    · exact absurd (hidden.symm.trans hthere) (by simp)
    · exact absurd (hidden.symm.trans hthere) (by simp)

include hsound in
/-- What a step does that parses the source. -/
theorem effect_parsing (hphase : v.phase = .parsing) (h : v.step frontEnd w = some (v', w')) :
    Effect start v w.files v' w'.files := by
  obtain ⟨b, t, phase, attempt?⟩ := v
  obtain rfl : phase = .parsing := hphase
  obtain ⟨d, hmakes⟩ := hsound
  cases moves_of_step h with
  | parsed same =>
    rw [same]
    rcases t.phase_afterParse b.settings (frontEnd t.source t.options) with
      ⟨ending, hending, hdumps⟩ | ⟨c, snapshot, parseMs, lines, -, -, hopening⟩
    · rw [hending]
      refine .of_unchanged rfl ?_ Iff.rfl (fun huses => absurd huses id) rfl
        (Phase.not_dumped_of_ending rfl hdumps)
      exact ⟨⟨_, hmakes.claims⟩, fun hdumps' => absurd hdumps' hdumps⟩
    · rw [hopening]
      refine .of_unchanged rfl ?_ Iff.rfl (fun huses => absurd huses id) rfl (Phase.not_dumped rfl)
      exact ⟨⟨d, hmakes⟩, _, rfl, hopening⟩

include hsame hsound in
/-- What a step does that opens the file beside the artifact. -/
theorem effect_opening {dump : Dump} (hphase : v.phase = .opening dump)
    (h : v.step frontEnd w = some (v', w')) : Effect start v w.files v' w'.files := by
  obtain ⟨b, t, phase, attempt?⟩ := v
  obtain rfl : phase = .opening dump := hphase
  obtain ⟨⟨d, hmakes⟩, hopens⟩ := hsound
  -- the file is there afterwards, whether or not the rules fit
  have hopened (hok : w.files.openEmpty (tempPath t.artifact) = .ok w'.files) :
      w.files.get? (d ++ [t.artifact.name ++ ".tmp"]) ≠ some .directory ∧
        w'.files = w.files.put (d ++ [t.artifact.name ++ ".tmp"]) (.file []) := by
    obtain ⟨p, hplace, hdir, hput⟩ := of_openEmpty hok
    rw [hsame.place?_eq, hmakes.seats.temp] at hplace
    obtain rfl := Option.some.inj hplace
    exact ⟨hdir, hput⟩
  cases moves_of_step h with
  | opened made dumps =>
    obtain ⟨hdir, hput⟩ := hopened made
    rw [hput]
    exact .of_write hsame trivial trivial rfl hmakes.seats.temp hdir
      ⟨⟨d, makes_put_temp [] hmakes hdir⟩, hopens, dumps⟩
  | unspelled made =>
    obtain ⟨hdir, hput⟩ := hopened made
    rw [hput]
    exact .of_write hsame trivial trivial rfl hmakes.seats.temp hdir
      ⟨⟨d, makes_put_temp [] hmakes hdir⟩, hopens⟩
  | unopened same =>
    rw [same]
    exact .of_unchanged rfl ⟨⟨d, hmakes⟩, hopens⟩ Iff.rfl (fun _ => .inl trivial) rfl
      (Phase.not_dumped rfl)

include hsame hsound in
/-- What a step does that writes the file beside the artifact. -/
theorem effect_writing {dump : Dump} {text : String} (hphase : v.phase = .writing dump text)
    (h : v.step frontEnd w = some (v', w')) : Effect start v w.files v' w'.files := by
  obtain ⟨b, t, phase, attempt?⟩ := v
  obtain rfl : phase = .writing dump text := hphase
  obtain ⟨⟨d, hmakes⟩, hopens, htext⟩ := hsound
  cases moves_of_step h with
  | wrote made =>
    obtain ⟨p, hplace, hdir, hput⟩ := of_write made
    rw [hsame.place?_eq, hmakes.seats.temp] at hplace
    obtain rfl := Option.some.inj hplace
    rw [hput]
    refine .of_write hsame trivial trivial rfl hmakes.seats.temp hdir ?_
    refine ⟨hopens, d, text, makes_put_temp _ hmakes hdir, htext, ?_⟩
    rw [get?_put (ne_nil_of_get? hdir), if_pos rfl]
  | unwritten same =>
    rw [same]
    exact .of_unchanged rfl ⟨⟨d, hmakes⟩, hopens⟩ Iff.rfl .inl rfl (Phase.not_dumped rfl)

include hsame hsound in
/-- What a step does that moves the file beside the artifact to its place. -/
theorem effect_replacing {dump : Dump} (hphase : v.phase = .replacing dump)
    (h : v.step frontEnd w = some (v', w')) : Effect start v w.files v' w'.files := by
  obtain ⟨b, t, phase, attempt?⟩ := v
  obtain rfl : phase = .replacing dump := hphase
  obtain ⟨hopens, d, text, hmakes, htext, htemp⟩ := hsound
  cases moves_of_step h with
  | replaced made =>
    obtain ⟨p, q, content, hp, hcontent, hq, hdir, hput⟩ := of_replace made
    rw [hsame.place?_eq, hmakes.seats.temp] at hp
    rw [hsame.place?_eq, hmakes.seats.file] at hq
    obtain rfl := Option.some.inj hp
    obtain rfl := Option.some.inj hq
    obtain rfl := Entry.file.inj (Option.some.inj (hcontent.symm.trans htemp))
    have hentry := get?_moved htemp hdir
    rw [hput]
    refine .of_replace hsame trivial rfl (t.isDumped_dumped ..) rfl ⟨dump, hopens⟩ hmakes htemp
      ⟨⟨_, hmakes.claims.of_unchanged ?_⟩, fun _ => ?_⟩ (sameDirectories_moved htemp hdir) hentry
    · rw [hentry, if_neg (beside_ne d d _ (by decide)).symm, if_neg (lock_ne_temp d d _ _)]
    · refine ⟨⟨dump, hopens⟩, d, text, hmakes.seats, hmakes.new, hopens.writes htext, ?_⟩
      rw [hentry, if_pos rfl]
  | unreplaced same =>
    rw [same]
    exact .of_unchanged rfl ⟨⟨d, hmakes⟩, hopens⟩ Iff.rfl .inl rfl (Phase.not_dumped rfl)

include hsame hsound in
/-- What a step does that removes the file beside the artifact. -/
theorem effect_discarding {dump : Dump} {why : Failure} (hphase : v.phase = .discarding dump why)
    (h : v.step frontEnd w = some (v', w')) : Effect start v w.files v' w'.files := by
  obtain ⟨b, t, phase, attempt?⟩ := v
  obtain rfl : phase = .discarding dump why := hphase
  obtain ⟨⟨d, hmakes⟩, hopens⟩ := hsound
  have hplace : w.files.place? (tempPath t.artifact) = some (d ++ [t.artifact.name ++ ".tmp"]) := by
    rw [hsame.place?_eq, hmakes.seats.temp]
  by_cases hdir : w.files.get? (d ++ [t.artifact.name ++ ".tmp"]) = some .directory
  · -- a directory stays where it is
    have herror : w.files.unlinkIfThere (tempPath t.artifact)
        = .error (.refused .isDirectory (tempPath t.artifact)) := by
      rw [unlinkIfThere_eq hplace, hdir]
    cases moves_of_step h with
    | discarded gone => exact absurd (gone.symm.trans herror) (by simp)
    | @undiscarded _ _ e same =>
      obtain ⟨ending, hending, hdumps⟩ := t.phase_failDump dump.parseMs dump.report (.file e)
      rw [same, hending]
      refine .of_unchanged rfl ⟨⟨_, hmakes.claims⟩, fun h => absurd h hdumps⟩ Iff.rfl
        (fun _ => .inr fun p hp => ?_) rfl (Phase.not_dumped_of_ending rfl hdumps)
      rw [← Option.some.inj (hmakes.seats.temp.symm.trans hp)]
      exact (hsame.iff _).1 hdir
  · obtain ⟨fs', hok, hsame', hentry⟩ := exists_unlinkIfThere hplace hdir
    cases moves_of_step h with
    | discarded gone =>
      obtain rfl := Except.ok.inj (hok.symm.trans gone)
      obtain ⟨ending, hending, hdumps⟩ := t.phase_failDump dump.parseMs dump.report why
      rw [hending]
      refine .of_discard hsame trivial rfl hdumps rfl ⟨dump, hopens⟩ hmakes.seats.temp hdir
        ⟨⟨_, hmakes.claims.of_unchanged ?_⟩, fun h => absurd h hdumps⟩ hsame' hentry
      rw [hentry, if_neg (lock_ne_temp d d _ _)]
    | undiscarded _ refused => exact absurd (hok.symm.trans refused) (by simp)

include htree hsame hsound in
/-- Every step of a worker has its effect, if what is not there was not there at the start. -/
theorem effect_of_step
    (hlock : ∀ p, start.place? (lockPath v.artifact) = some p → w.files.get? p = none →
      start.get? p = none)
    (hfile : ∀ d, start.Seats v.artifact d → w.files.get? (d ++ [v.artifact.name]) = none →
      start.get? (d ++ [v.artifact.name]) = none)
    (h : v.step frontEnd w = some (v', w')) : Effect start v w.files v' w'.files := by
  cases hphase : v.phase with
  | looking => exact effect_looking hphase h
  | claiming => exact effect_claiming hsame hsound hphase hlock h
  | rechecking => exact effect_rechecking htree hsame hsound hphase hfile h
  | yielding => exact effect_yielding hsame hsound hphase h
  | parsing => exact effect_parsing hsound hphase h
  | opening dump => exact effect_opening hsame hsound hphase h
  | writing dump text => exact effect_writing hsame hsound hphase h
  | replacing dump => exact effect_replacing hsame hsound hphase h
  | discarding dump why => exact effect_discarding hsame hsound hphase h
  | releasing ending => exact effect_releasing hsame hsound hphase h
  | finished ending =>
    rw [step, hphase] at h
    exact absurd h (by simp [Phase.next])

end Worker

end DeclGraph
