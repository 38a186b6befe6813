import DeclGraph.Proofs.Batch.Crew

/-!
# Workers on one artifact

Any number of workers, of one batch or of several, may want the same artifact.  Only one of them at
a time holds the lock, only who holds it writes beside the artifact, and only one ever dumps; the
artifact is not there or it is what that one was to write, and it never changes
(`Crew.exclusive_of_reaches`).
-/

namespace DeclGraph

open FileSystem

namespace Crew

variable {start : FileSystem} {c c' : Crew} {i j : Nat} {v u : Worker} {artifact : Path}
  {p d : Place}

/-- Every worker wants the same artifact. -/
def Shares (c : Crew) (artifact : Path) : Prop := ∀ v ∈ c.workers, v.artifact = artifact

theorem Shares.reaches (hshares : c.Shares artifact) (h : Reaches c c') : c'.Shares artifact := by
  intro u hu
  obtain ⟨j, hj⟩ := List.mem_iff_getElem?.1 hu
  obtain ⟨v, hv, -, htask⟩ := h.job hj
  rw [← hshares v (List.mem_of_getElem? hv)]
  exact congrArg Task.artifact htask

/-- Only one artifact is dumped, and only by one worker at a time. -/
structure Exclusive (artifact : Path) (c : Crew) : Prop where
  /-- At most one worker holds the lock. -/
  holder : ∀ (i j : Nat) (v u : Worker), c.workers[i]? = some v → c.workers[j]? = some u →
    v.phase.Holds → u.phase.Holds → i = j
  /-- Only the worker that holds the lock writes beside the artifact. -/
  writer : ∀ (i : Nat) (c' : Crew), StepOf i c c' →
    c'.files.at? (tempPath artifact) ≠ c.files.at? (tempPath artifact) →
      ∃ v, c.workers[i]? = some v ∧ v.phase.Holds
  /-- At most one worker ever dumps. -/
  dumper : ∀ (c' : Crew), Reaches c c' → ∀ (i j : Nat) (v u : Worker), c.workers[i]? = some v →
    c'.workers[j]? = some u → v.phase.Dumped → u.phase.Dumped → i = j
  /-- An artifact that is there never changes. -/
  stays : ∀ (c' : Crew), Reaches c c' → c.files.at? artifact ≠ none →
    c'.files.at? artifact = c.files.at? artifact
  /-- The artifact is not there, or it is all that the worker that dumped it was to write. -/
  complete : c.files.at? artifact = none ∨ ∃ (i : Nat) (v : Worker) (text : String),
    c.workers[i]? = some v ∧ v.phase.Dumped ∧
      (∀ (j : Nat) (u : Worker), c.workers[j]? = some u → u.phase.Dumped → j = i) ∧
      v.Writes text ∧ c.files.at? artifact = some (.file (Utf8.encode text))

/-- An artifact that was not there at the start has a seat where its lock is taken. -/
theorem exists_seat_of_claims (htree : start.IsTree) (habsent : start.at? artifact = none)
    {fs : FileSystem} (hclaims : Claims start fs artifact p) :
    ∃ d, start.Seats artifact d ∧ p = d ++ [artifact.name ++ ".lock"] := by
  obtain ⟨d, hd, rfl, hseat⟩ := exists_seat hclaims.named hclaims.place
  split_ifs at hseat with hup
  · rw [at?, hseat, Option.bind_some, htree.dropLast hd] at habsent
    exact absurd habsent (by simp)
  · exact ⟨d, hseat, rfl⟩

namespace Sound

variable (htree : start.IsTree) (hs : Sound start c) (hshares : c.Shares artifact)
  (habsent : start.at? artifact = none)

include htree hs hshares habsent

/-- An artifact that is there was dumped. -/
theorem exists_dumped (hplace : start.place? artifact = some p)
    (hthere : c.files.get? p ≠ none) :
    ∃ (i : Nat) (v : Worker), c.workers[i]? = some v ∧ v.phase.Dumped := by
  have hnew : start.get? p = none := by
    rw [at?, hplace] at habsent
    exact habsent
  rcases hs.frame p with heq | ⟨i, v, hi, htouches⟩
  · exact absurd (heq.trans hnew) hthere
  · -- a worker accounts for it, and not for its lock or the file beside it
    have hsound := hs.worker i v hi
    have hartifact := hshares v (List.mem_of_getElem? hi)
    cases htouches with
    | lock holds place =>
      obtain ⟨q, hclaims⟩ := hsound.claims holds
      rw [hartifact] at hclaims place
      obtain ⟨d, hseats, rfl⟩ := exists_seat_of_claims htree habsent hclaims
      obtain rfl := Option.some.inj (hplace.symm.trans hseats.file)
      exact absurd (Option.some.inj (place.symm.trans hseats.lock)) (beside_ne d d _ (by decide))
    | temp busy place =>
      obtain ⟨d, hmakes⟩ := hsound.makes busy.works
      rw [hartifact] at hmakes place
      obtain rfl := Option.some.inj (hplace.symm.trans hmakes.seats.file)
      exact absurd (Option.some.inj (place.symm.trans hmakes.seats.temp))
        (beside_ne d d _ (by decide))
    | artifact dumped => exact ⟨i, v, hi, dumped⟩
    | stale settled dumping place was gone => exact absurd gone hthere

/-- A step leaves an artifact alone that is there. -/
theorem artifact_stays (h : StepOf i c c') (hthere : c.files.at? artifact ≠ none) :
    c'.files.at? artifact = c.files.at? artifact := by
  cases hplace : start.place? artifact with
  | none =>
    rw [at?, hs.same.place?_eq, hplace] at hthere
    exact absurd rfl hthere
  | some p =>
    rw [hs.at?_eq_get? hplace] at hthere
    rw [hs.at?_eq_get? hplace, (hs.stepOf htree h).at?_eq_get? hplace]
    obtain ⟨j, u, hj, hdumped⟩ := hs.exists_dumped htree hshares habsent hplace hthere
    obtain ⟨frontEnd, v, v', w', hi, hstep, rfl⟩ := h
    rcases (hs.effect htree hi hstep).changes p with heq | ⟨hmay, -⟩
    · exact heq
    · -- whoever may change it works on the artifact that another worker has dumped
      have hartifact := hshares v (List.mem_of_getElem? hi)
      have hguards : u.Guards start p := by
        refine .artifact (.inr hdumped) ?_
        rwa [hshares u (List.mem_of_getElem? hj)]
      by_cases hji : i = j
      · subst hji
        obtain rfl := Option.some.inj (hi.symm.trans hj)
        cases hmay with
        | claim place free => exact absurd free hthere
        | lock holds place =>
          obtain ⟨-, d, text, hseats, -, -, -⟩ := (hs.worker i v hi).completes hdumped
          rw [← hartifact] at hplace
          obtain rfl := Option.some.inj (hplace.symm.trans hseats.file)
          exact absurd (Option.some.inj (place.symm.trans hseats.lock)).symm
            (beside_ne d d _ (by decide)).symm
        | temp works => exact absurd hdumped (Phase.not_dumped works.ending?_eq)
        | artifact works => exact absurd hdumped (Phase.not_dumped works.ending?_eq)
      · exact absurd hguards (hs.not_guards hi hj hji hmay)

/-- Workers on one artifact exclude each other. -/
theorem exclusive_of_shares : Exclusive artifact c where
  holder i j v u hi hj hv hu := by
    refine hs.exclusive i j v u hi hj hv hu ?_
    dsimp only
    rw [hshares v (List.mem_of_getElem? hi), hshares u (List.mem_of_getElem? hj)]
  writer i c' h hne := by
    cases hplace : start.place? (tempPath artifact) with
    | none =>
      rw [at?, at?, hs.same.place?_eq, (hs.stepOf htree h).same.place?_eq, hplace] at hne
      exact absurd rfl hne
    | some p =>
      rw [hs.at?_eq_get? hplace, (hs.stepOf htree h).at?_eq_get? hplace] at hne
      obtain ⟨frontEnd, v, v', w', hi, hstep, rfl⟩ := h
      rcases (hs.effect htree hi hstep).changes p with heq | ⟨hmay, -⟩
      · exact absurd heq hne
      · -- only a claim is made without the lock, and it makes a lock
        cases hmay with
        | claim place free =>
          obtain ⟨d, rfl⟩ := exists_concat_of_place? (by decide) place
          obtain ⟨d', heq⟩ := exists_concat_of_place? (by decide) hplace
          exact absurd heq (lock_ne_temp d d' _ _)
        | lock holds => exact ⟨v, hi, holds⟩
        | temp works => exact ⟨v, hi, works.holds⟩
        | artifact works => exact ⟨v, hi, works.holds⟩
  dumper c' h i j v u hi hj hv hu := by
    obtain ⟨v', hi', hv'⟩ := hs.dumped_of_reaches htree h hi hv
    have hshares' := hshares.reaches h
    refine (hs.reaches htree h).once i j v' u hi' hj hv' hu ?_
    dsimp only
    rw [hshares' v' (List.mem_of_getElem? hi'), hshares' u (List.mem_of_getElem? hj)]
  stays c' h hthere := by
    induction h with
    | refl => rfl
    | tail hreach hstep ih =>
      obtain ⟨i, hstep⟩ := hstep
      have hthere' := hthere
      rw [← ih] at hthere' ⊢
      exact (hs.reaches htree hreach).artifact_stays htree (hshares.reaches hreach) habsent hstep
        hthere'
  complete := by
    cases hplace : start.place? artifact with
    | none =>
      left
      rw [at?, hs.same.place?_eq, hplace]
      rfl
    | some p =>
      rw [hs.at?_eq_get? hplace]
      by_cases hthere : c.files.get? p = none
      · exact .inl hthere
      · right
        obtain ⟨i, v, hi, hdumped⟩ := hs.exists_dumped htree hshares habsent hplace hthere
        have hartifact := hshares v (List.mem_of_getElem? hi)
        obtain ⟨-, d, text, hseats, -, hwrites, hcontent⟩ := (hs.worker i v hi).completes hdumped
        rw [hartifact] at hseats hcontent
        obtain rfl := Option.some.inj (hplace.symm.trans hseats.file)
        refine ⟨i, v, text, hi, hdumped, fun j u hj hu => ?_, hwrites, hcontent⟩
        refine hs.once j i u v hj hi hu hdumped ?_
        dsimp only
        rw [hartifact, hshares u (List.mem_of_getElem? hj)]

end Sound

/-- **Exclusive dump.** However workers on one artifact take their steps, from files where it is not
there: at most one of them holds the lock, only that one writes beside the artifact, at most one
ever dumps, and the artifact is not there or all that this one was to write, and never changes. -/
theorem exclusive_of_reaches {begin : Crew} (htree : begin.files.IsTree) (hnew : begin.IsNew)
    (hshares : begin.Shares artifact) (habsent : begin.files.at? artifact = none)
    (h : Reaches begin c) : Exclusive artifact c := by
  have hapart : artifact.Apart artifact :=
    ⟨append_ne_self (by decide), append_ne_self (by decide)⟩
  have hsound : Sound begin.files begin :=
    .of_isNew hnew fun v hv u hu => by rw [hshares v hv, hshares u hu]; exact hapart
  exact (hsound.reaches htree h).exclusive_of_shares htree (hshares.reaches h) habsent

/-! ### A claim that comes late -/

/-- A batch that writes everything to the working directory. -/
def plainBatch : Batch :=
  ⟨.standard "" ⟨.relative, []⟩, .standard, .everything, ⟨[]⟩⟩

/-- A front end that finds nothing in any source. -/
def findsNothing : FrontEnd := fun _ _ => ⟨.zero false, .ok ⟨⟨#[.make .compilation []]⟩, .node 0⟩⟩

/-- The artifact of two sources with the same name. -/
def sharedArtifact : Path := ⟨.relative, ["util.obj"]⟩

/-- Two workers on the same artifact. -/
def pair : Crew where
  world := .fresh
  workers := [.start plainBatch ⟨"x/util.c", sharedArtifact, default⟩,
    .start plainBatch ⟨"y/util.c", sharedArtifact, default⟩]

/-- Both look for the artifact; the first one dumps it and gives the lock back before the second one
takes the lock, looks once more and gives it back. -/
def lateClaim : Option Crew := [0, 1, 0, 0, 0, 0, 0, 0, 0, 1, 1, 1].foldlM (act findsNothing) pair

/-- A claim that comes late changes nothing. -/
theorem exclusive_lateClaim :
    ∃ c, lateClaim = some c ∧ c.workers.map (·.phase.rank) = [0, 0] ∧
      c.files.entries.map Prod.fst = [["work"], ["work", "util.obj"]] ∧
      pair.files.IsTree ∧ pair.IsNew ∧ pair.Shares sharedArtifact ∧
      pair.files.at? sharedArtifact = none ∧ Reaches pair c ∧ Exclusive sharedArtifact c := by
  have hrun : (lateClaim.map fun c => (c.workers.map (·.phase.rank), c.files.entries.map Prod.fst))
      = some ([0, 0], [["work"], ["work", "util.obj"]]) := by decide +kernel
  obtain ⟨c, hc, hfinal⟩ := Option.map_eq_some_iff.1 hrun
  obtain ⟨hphases, hplaces⟩ := Prod.mk.inj hfinal
  have hnew : pair.IsNew := by simp [IsNew, pair, Worker.start]
  have hshares : pair.Shares sharedArtifact := by simp [Shares, pair, Worker.start]
  have habsent : pair.files.at? sharedArtifact = none := by decide +kernel
  have hreach : Reaches pair c := .of_act hc
  exact ⟨c, hc, hphases, hplaces, .fresh, hnew, hshares, habsent, hreach,
    exclusive_of_reaches .fresh hnew hshares habsent hreach⟩

end Crew

end DeclGraph
