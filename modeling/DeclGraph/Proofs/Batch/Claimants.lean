import DeclGraph.Batch.Claim
import DeclGraph.Program.World
import DeclGraph.Proofs.Batch.Seat
import DeclGraph.Proofs.Entries
import DeclGraph.Proofs.FileSystem.Local

/-!
# Claims on the same files

Any number of claims, on any artifacts, take their locks and give them back in any order, while
files that are no locks come and go (`Claimants.Step`).  What taking a lock comes to is one of four
cases (`Claim.Acquires`), one of which takes the lock and gives it back at once.

The flag of a claim and the lock beside its artifact say the same: `Claimants.Sound` is kept by
every step, and with it the claims are `Claimants.Orderly` at any time.  Claims are compared by the
places of their locks, so it does not matter how the path of an artifact is written.
-/

namespace DeclGraph

open FileSystem

namespace FileSystem

variable {fs fs' : FileSystem} {path : Path} {p : Place}

/-- What is put where nothing stands and removed again leaves nothing behind. -/
theorem remove_put (h : fs.get? p = none) (e : Entry) : (fs.put p e).remove p = fs := by
  have hp : p ≠ [] := ne_nil_of_get? (by rw [h]; simp)
  have hnew : p ∉ Entries.keys fs.entries := by
    rw [get?, if_neg hp] at h
    exact Entries.get?_eq_none_iff.1 h
  have hkept : fs.entries.filter (fun e => e.1 ≠ p) = fs.entries := by
    refine List.filter_eq_self.2 fun entry hentry => decide_eq_true fun heq => hnew ?_
    exact List.mem_map.2 ⟨entry, hentry, heq⟩
  rw [remove, put, Entries.put_of_notMem hnew, List.filter_append, hkept]
  simp

/-- A file is removed where one stands. -/
theorem of_unlink (h : fs.unlink path = .ok fs') :
    ∃ p content, fs.place? path = some p ∧ fs.get? p = some (.file content) ∧
      fs' = fs.remove p := by
  unfold unlink at h
  split at h
  · next p content hloc =>
    obtain ⟨hp, he⟩ := of_locate hloc
    exact ⟨p, content, hp, he.symm, (Except.ok.inj h).symm⟩
  · exact absurd h (by simp)
  · exact absurd h (by simp)
  · exact absurd h (by simp)

end FileSystem

/-! ### One claim -/

namespace Claim

variable {c : Claim} {w : World} {p : Place}

/-- The place of the lock. -/
def lock? (c : Claim) (fs : FileSystem) : Option Place := fs.place? (lockPath c.artifact)

/-- What taking a lock comes to. -/
inductive Acquires (c : Claim) (w : World) : Except FileError Bool → Claim → World → Prop
  /-- The lock is there already. -/
  | refused (there : w.files.at? (lockPath c.artifact) ≠ none) : Acquires c w (.ok false) c w
  /-- The lock leads nowhere. -/
  | raised (nowhere : c.lock? w.files = none) (e : FileError) : Acquires c w (.error e) c w
  /-- The artifact is there, so the lock is given back. -/
  | late {p : Place} (place : c.lock? w.files = some p) (free : w.files.get? p = none)
    (there : w.files.at? c.artifact ≠ none) : Acquires c w (.ok false) { c with held := false } w
  /-- The lock is taken. -/
  | taken {p : Place} (place : c.lock? w.files = some p) (free : w.files.get? p = none)
    (absent : w.files.at? c.artifact = none) :
    Acquires c w (.ok true) { c with held := true } { w with files := w.files.put p (.file []) }

/-- A claim that holds nothing has nothing to give back. -/
theorem runIn_release_of_free (hfree : c.held = false) (frontEnd : FrontEnd) (w : World) :
    c.release.runIn frontEnd w = ((.ok (), c), w) := by
  rw [release, if_neg (by simp [hfree])]
  rfl

/-- A claim gives its lock back. -/
theorem runIn_release_of_held (hheld : c.held = true) (frontEnd : FrontEnd)
    {content : List UInt8} (hplace : c.lock? w.files = some p)
    (hthere : w.files.get? p = some (.file content)) :
    c.release.runIn frontEnd w
      = ((.ok (), { c with held := false }), { w with files := w.files.remove p }) := by
  have hanswer : w.files.unlinkIfThere (lockPath c.artifact) = .ok (w.files.remove p) := by
    rw [unlinkIfThere_eq hplace, hthere]
  rw [release, if_pos hheld, Program.runIn_bind, Program.runIn_request]
  dsimp only [World.perform]
  rw [hanswer]
  rfl

/-- Looking for an artifact behind its lock finds what was there before the lock. -/
theorem exists_of_locked (hname : c.artifact.name ≠ "") (hplace : c.lock? w.files = some p)
    (hfree : w.files.get? p = none) :
    (w.files.put p (.file [])).exists c.artifact
      = .ok (w.files.at? c.artifact).isSome := by
  have hsame : SameDirectories w.files (w.files.put p (.file [])) :=
    sameDirectories_put (by rw [hfree]; simp) []
  obtain ⟨d, -, rfl, hseat⟩ := exists_seat hname hplace
  have hne : d ++ [c.artifact.name ++ ".lock"] ≠ [] := by simp
  -- the artifact stands at another place than the lock, whatever it is called
  obtain ⟨q, hq, hqne⟩ : ∃ q, w.files.place? c.artifact = some q ∧
      q ≠ d ++ [c.artifact.name ++ ".lock"] := by
    split_ifs at hseat with hup
    · refine ⟨_, hseat, fun heq => ?_⟩
      have hlength := congrArg List.length heq
      rw [List.length_dropLast, List.length_append, List.length_singleton] at hlength
      omega
    · exact ⟨_, hseat.file, beside_ne d d _ (by decide)⟩
  rw [exists_eq_of_place? ((hsame.place?_eq _).trans hq), get?_put hne, if_neg hqne,
    at?_of_place? hq]

/-- Taking a lock comes to one of the four cases. -/
theorem acquires_of_runIn (hname : c.artifact.name ≠ "") {frontEnd : FrontEnd}
    {answer : Except FileError Bool} {c' : Claim} {w' : World}
    (h : c.acquire.runIn frontEnd w = ((answer, c'), w')) : c.Acquires w answer c' w' := by
  rw [acquire, Program.runIn_bind, Program.runIn_request] at h
  dsimp only [World.perform] at h
  cases hcreate : w.files.createExclusive (lockPath c.artifact) with
  | error e =>
    rw [hcreate] at h
    dsimp only [World.change] at h
    split at h
    · next q heq =>
      obtain ⟨hanswer, rfl⟩ := Prod.mk.inj h
      obtain ⟨rfl, rfl⟩ := Prod.mk.inj hanswer
      rw [Except.error.inj heq] at hcreate
      exact .refused (at?_ne_none_of_createExclusive hcreate)
    · next hne heq =>
      obtain ⟨hanswer, rfl⟩ := Prod.mk.inj h
      obtain ⟨rfl, rfl⟩ := Prod.mk.inj hanswer
      obtain rfl := Except.error.inj heq
      exact .raised (place?_eq_none_of_createExclusive hcreate hne) _
    · next heq => exact absurd heq (by simp)
  | ok fs =>
    obtain ⟨p, hplace, hfree, rfl⟩ := of_createExclusive hcreate
    have hplace : c.lock? w.files = some p := hplace
    rw [hcreate] at h
    dsimp only [World.change] at h
    rw [Program.runIn_bind, Program.runIn_request] at h
    dsimp only [World.perform] at h
    rw [exists_of_locked hname hplace hfree] at h
    -- the lock does not stand in the way of looking for the artifact
    cases hentry : w.files.at? c.artifact with
    | none =>
      rw [hentry] at h
      obtain ⟨hanswer, rfl⟩ := Prod.mk.inj h
      obtain ⟨rfl, rfl⟩ := Prod.mk.inj hanswer
      exact .taken hplace hfree hentry
    | some entry =>
      rw [hentry] at h
      dsimp only [Option.isSome] at h
      -- the artifact has come up meanwhile: giving the lock back undoes the claim
      have hsame : SameDirectories w.files (w.files.put p (.file [])) :=
        sameDirectories_put (by rw [hfree]; simp) []
      have hthere : (w.files.put p (.file [])).get? p = some (.file []) := by
        rw [get?_put (ne_nil_of_get? (by rw [hfree]; simp)), if_pos rfl]
      have hrelease := runIn_release_of_held (c := { c with held := true })
        (w := { w with files := w.files.put p (.file []) }) rfl frontEnd
        ((hsame.place?_eq _).trans hplace) hthere
      rw [Program.runIn_bind, hrelease] at h
      dsimp only at h
      rw [remove_put hfree] at h
      obtain ⟨hanswer, rfl⟩ := Prod.mk.inj h
      obtain ⟨rfl, rfl⟩ := Prod.mk.inj hanswer
      exact .late hplace hfree (by rw [hentry]; simp)

end Claim

/-! ### Many claims -/

/-- Claims on the files of a world. -/
structure Claimants where
  /-- The files. -/
  world : World
  /-- The claims. -/
  claims : List Claim

namespace Claimants

variable {s s' : Claimants} {i j : Nat} {c d : Claim} {p : Place}

/-- The files that are claimed. -/
abbrev files (s : Claimants) : FileSystem := s.world.files

/-- A path does not lead to a lock. -/
def IsFree (s : Claimants) (path : Path) : Prop :=
  ∀ c ∈ s.claims, ∀ p, s.files.place? path = some p → c.lock? s.files ≠ some p

/-- What may happen. -/
inductive Step : Claimants → Claimants → Prop
  /-- A claim tries to take its lock. -/
  | acquire {s : Claimants} {i : Nat} {c c' : Claim} {frontEnd : FrontEnd}
    {answer : Except FileError Bool} {w' : World} (claim : s.claims[i]? = some c)
    (run : c.acquire.runIn frontEnd s.world = ((answer, c'), w')) :
    Step s ⟨w', s.claims.set i c'⟩
  /-- A claim gives its lock back, whether it has it or not. -/
  | release {s : Claimants} {i : Nat} {c c' : Claim} {frontEnd : FrontEnd}
    {answer : Except FileError Unit} {w' : World} (claim : s.claims[i]? = some c)
    (run : c.release.runIn frontEnd s.world = ((answer, c'), w')) :
    Step s ⟨w', s.claims.set i c'⟩
  /-- A file is written that is no lock. -/
  | create {s : Claimants} {path : Path} {content : List UInt8} {fs : FileSystem}
    (free : s.IsFree path) (write : s.files.write path content = .ok fs) :
    Step s ⟨{ s.world with files := fs }, s.claims⟩
  /-- A file is removed that is no lock. -/
  | delete {s : Claimants} {path : Path} {fs : FileSystem} (free : s.IsFree path)
    (unlink : s.files.unlink path = .ok fs) : Step s ⟨{ s.world with files := fs }, s.claims⟩

/-- Anything that may happen does, in any order. -/
def Reaches : Claimants → Claimants → Prop := Relation.ReflTransGen Step

/-- The claims have just been made, and no lock is there. -/
structure IsNew (s : Claimants) : Prop where
  /-- The claims have just been made. -/
  made : ∀ c ∈ s.claims, Claim.on? c.artifact = .ok c
  /-- No lock is there. -/
  free : ∀ c ∈ s.claims, s.files.at? (lockPath c.artifact) = none

/-- What every step keeps. -/
structure Sound (s : Claimants) : Prop where
  /-- Every artifact has a name. -/
  named : ∀ c ∈ s.claims, c.artifact.name ≠ ""
  /-- The lock of a claim that holds it is there. -/
  held : ∀ c ∈ s.claims, c.held = true →
    ∃ p, c.lock? s.files = some p ∧ s.files.get? p = some (.file [])
  /-- No two claims hold one lock. -/
  single : ∀ (i j : Nat) (c d : Claim), s.claims[i]? = some c → s.claims[j]? = some d →
    c.held = true → d.held = true → c.lock? s.files = d.lock? s.files → i = j
  /-- A lock that is there is held. -/
  holder : ∀ c ∈ s.claims, ∀ p, c.lock? s.files = some p → s.files.get? p ≠ none →
    ∃ (j : Nat) (d : Claim), s.claims[j]? = some d ∧ d.held = true ∧ d.lock? s.files = some p

namespace Sound

theorem of_isNew (h : s.IsNew) : s.Sound := by
  have hmade : ∀ c ∈ s.claims, c.artifact.name ≠ "" ∧ c.held = false := by
    intro c hc
    have hon := h.made c hc
    rw [Claim.on?] at hon
    split_ifs at hon with hname
    rw [← Except.ok.inj hon]
    exact ⟨fun hempty => hname (String.isEmpty_iff.2 hempty), rfl⟩
  have hfree {c : Claim} (hc : c ∈ s.claims) (hheld : c.held = true) : False := by
    rw [(hmade c hc).2] at hheld
    exact absurd hheld (by simp)
  constructor
  · exact fun c hc => (hmade c hc).1
  · exact fun c hc hheld => absurd (hfree hc hheld) id
  · exact fun i j c d hi _ hheld => absurd (hfree (List.mem_of_getElem? hi) hheld) id
  · intro c hc p hp hthere
    have habsent := h.free c hc
    rw [at?_of_place? hp] at habsent
    exact absurd habsent hthere

/-- No claim holds a lock that is not there. -/
theorem not_held_of_absent (h : s.Sound) (hc : c ∈ s.claims) (hp : c.lock? s.files = some p)
    (habsent : s.files.get? p = none) : c.held = false := by
  by_contra hheld
  obtain ⟨q, hq, hthere⟩ := h.held c hc (by simpa using hheld)
  obtain rfl := Option.some.inj (hp.symm.trans hq)
  exact absurd (habsent.symm.trans hthere) (by simp)

/-- Files that are no locks do not matter. -/
theorem of_files {fs : FileSystem} (h : s.Sound) (hsame : SameDirectories s.files fs)
    (hlocks : ∀ c ∈ s.claims, ∀ p, c.lock? s.files = some p → fs.get? p = s.files.get? p) :
    Sound ⟨{ s.world with files := fs }, s.claims⟩ := by
  have hlock (c : Claim) : c.lock? fs = c.lock? s.files := hsame.place?_eq _
  refine ⟨h.named, ?_, ?_, ?_⟩
  · intro c hc hheld
    obtain ⟨p, hp, hthere⟩ := h.held c hc hheld
    exact ⟨p, (hlock c).trans hp, (hlocks c hc p hp).trans hthere⟩
  · intro i j c d hi hj hc hd heq
    exact h.single i j c d hi hj hc hd ((hlock c).symm.trans (heq.trans (hlock d)))
  · intro c hc p hp hthere
    have hp : c.lock? s.files = some p := (hlock c).symm.trans hp
    have hthere : s.files.get? p ≠ none := (hlocks c hc p hp) ▸ hthere
    obtain ⟨j, d, hj, hd, hdp⟩ := h.holder c hc p hp hthere
    exact ⟨j, d, hj, hd, (hlock d).trans hdp⟩

/-- A claim comes to hold its lock or not, as the lock comes to be there or not. -/
theorem set {fs : FileSystem} {b : Bool} (h : s.Sound) (hi : s.claims[i]? = some c)
    (hp : c.lock? s.files = some p) (hsame : SameDirectories s.files fs)
    (hlock : fs.get? p = if b then some (.file []) else none)
    (helse : ∀ q, q ≠ p → fs.get? q = s.files.get? q)
    (hothers : ∀ (j : Nat) (d : Claim), s.claims[j]? = some d → j ≠ i → d.held = true →
      d.lock? s.files ≠ some p) :
    Sound ⟨{ s.world with files := fs }, s.claims.set i { c with held := b }⟩ := by
  have hplace (d : Claim) : d.lock? fs = d.lock? s.files := hsame.place?_eq _
  have hmem := List.mem_of_getElem? hi
  refine ⟨?_, ?_, ?_, ?_⟩
  · intro d hd
    rcases List.mem_or_eq_of_mem_set hd with hd | rfl
    · exact h.named d hd
    · exact h.named c hmem
  · intro d hd hheld
    obtain ⟨j, hj⟩ := List.mem_iff_getElem?.1 hd
    -- the claim itself, or another one whose lock is elsewhere
    rcases (getElem?_set_eq_some_iff hi).1 hj with ⟨-, rfl⟩ | ⟨hji, hj⟩
    · have hheld : b = true := hheld
      exact ⟨p, (hplace c).trans hp, hlock.trans (if_pos hheld)⟩
    · obtain ⟨q, hq, hthere⟩ := h.held d (List.mem_of_getElem? hj) hheld
      have hqp : q ≠ p := fun heq => hothers j d hj hji hheld (heq ▸ hq)
      exact ⟨q, (hplace d).trans hq, (helse q hqp).trans hthere⟩
  · intro j k d e hj hk hd he heq
    have hone : d.lock? s.files = e.lock? s.files := (hplace d).symm.trans (heq.trans (hplace e))
    rcases (getElem?_set_eq_some_iff hi).1 hj with ⟨rfl, rfl⟩ | ⟨hji, hj'⟩
    · -- of two holders at most one is the claim, and no other holds its lock
      rcases (getElem?_set_eq_some_iff hi).1 hk with ⟨rfl, rfl⟩ | ⟨hki, hk'⟩
      · rfl
      · exact absurd (hone.symm.trans hp) (hothers k e hk' hki he)
    · rcases (getElem?_set_eq_some_iff hi).1 hk with ⟨rfl, rfl⟩ | ⟨-, hk'⟩
      · exact absurd (hone.trans hp) (hothers j d hj' hji hd)
      · exact h.single j k d e hj' hk' hd he hone
  · intro d hd q hq hthere
    have hq : d.lock? s.files = some q := (hplace d).symm.trans hq
    by_cases hqp : q = p
    · -- only the claim itself may hold its lock
      subst hqp
      cases b with
      | true =>
        exact ⟨i, _, (getElem?_set_eq_some_iff hi).2 (.inl ⟨rfl, rfl⟩), rfl, (hplace c).trans hp⟩
      | false => exact absurd hlock hthere
    · obtain ⟨d', hd', hd'q⟩ : ∃ d' ∈ s.claims, d'.lock? s.files = some q := by
        rcases List.mem_or_eq_of_mem_set hd with hd | rfl
        · exact ⟨d, hd, hq⟩
        · exact ⟨c, hmem, hq⟩
      have hthere : s.files.get? q ≠ none := fun hnone => hthere ((helse q hqp).trans hnone)
      obtain ⟨j, e, hj, he, heq⟩ := h.holder d' hd' q hd'q hthere
      have hji : j ≠ i := by
        rintro rfl
        obtain rfl := Option.some.inj (hi.symm.trans hj)
        exact hqp (Option.some.inj (heq.symm.trans hp))
      exact ⟨j, e, (getElem?_set_eq_some_iff hi).2 (.inr ⟨hji, hj⟩), he, (hplace e).trans heq⟩

/-- A claim takes a lock that is not there. -/
theorem take (h : s.Sound) (hi : s.claims[i]? = some c) (hp : c.lock? s.files = some p)
    (hfree : s.files.get? p = none) :
    Sound ⟨{ s.world with files := s.files.put p (.file []) },
      s.claims.set i { c with held := true }⟩ := by
  have hdir : s.files.get? p ≠ some .directory := by rw [hfree]; simp
  have hput (q : Place) : (s.files.put p (.file [])).get? q
      = if q = p then some (.file []) else s.files.get? q :=
    get?_put (ne_nil_of_get? hdir) (.file []) q
  refine h.set hi hp (sameDirectories_put hdir []) ?_ ?_ ?_
  · rw [hput, if_pos rfl, if_pos rfl]
  · intro q hqp
    rw [hput, if_neg hqp]
  · intro j d hj _ hheld hdp
    rw [h.not_held_of_absent (List.mem_of_getElem? hj) hdp hfree] at hheld
    exact absurd hheld (by simp)

/-- A claim gives the lock back that it holds. -/
theorem giveBack (h : s.Sound) (hi : s.claims[i]? = some c) (hheld : c.held = true)
    (hp : c.lock? s.files = some p) (hthere : s.files.get? p = some (.file [])) :
    Sound ⟨{ s.world with files := s.files.remove p },
      s.claims.set i { c with held := false }⟩ := by
  have hdir : s.files.get? p ≠ some .directory := by rw [hthere]; simp
  have hremove (q : Place) : (s.files.remove p).get? q
      = if q = p then none else s.files.get? q := get?_remove (ne_nil_of_get? hdir) q
  refine h.set hi hp (sameDirectories_remove hdir) ?_ ?_ ?_
  · rw [hremove, if_pos rfl, if_neg (by simp)]
  · intro q hqp
    rw [hremove, if_neg hqp]
  · intro j d hj hji hd hdp
    exact hji (h.single j i d c hj hi hd hheld (hdp.trans hp.symm))

/-- A claim that stays as it is. -/
theorem keep (h : s.Sound) (hi : s.claims[i]? = some c) :
    Sound ⟨s.world, s.claims.set i c⟩ := by
  obtain ⟨hlt, hget⟩ := List.getElem?_eq_some_iff.1 hi
  rw [← hget, List.set_getElem_self hlt]
  exact h

/-- Every step keeps the invariant. -/
theorem step (h : s.Sound) (hstep : Step s s') : s'.Sound := by
  cases hstep with
  | acquire hi hrun =>
    have hmem := List.mem_of_getElem? hi
    cases Claim.acquires_of_runIn (h.named _ hmem) hrun with
    | refused | raised => exact h.keep hi
    | late place free =>
      -- a claim whose lock is not there holds nothing
      have hheld := h.not_held_of_absent hmem place free
      rw [← hheld]
      exact h.keep hi
    | taken place free => exact h.take hi place free
  | @release i c c' frontEnd answer w' hi hrun =>
    cases hheld : c.held with
    | false =>
      rw [Claim.runIn_release_of_free hheld] at hrun
      obtain ⟨hanswer, rfl⟩ := Prod.mk.inj hrun
      obtain ⟨-, rfl⟩ := Prod.mk.inj hanswer
      exact h.keep hi
    | true =>
      obtain ⟨p, hp, hthere⟩ := h.held c (List.mem_of_getElem? hi) hheld
      rw [Claim.runIn_release_of_held hheld frontEnd hp hthere] at hrun
      obtain ⟨hanswer, rfl⟩ := Prod.mk.inj hrun
      obtain ⟨-, rfl⟩ := Prod.mk.inj hanswer
      exact h.giveBack hi hheld hp hthere
  | create hfree hwrite =>
    obtain ⟨q, hq, hdir, rfl⟩ := of_write hwrite
    refine h.of_files (sameDirectories_put hdir _) fun c hc p hp => ?_
    have hne : p ≠ q := fun heq => hfree c hc q hq (heq ▸ hp)
    rw [get?_put (ne_nil_of_get? hdir), if_neg hne]
  | delete hfree hunlink =>
    obtain ⟨q, content, hq, hthere, rfl⟩ := of_unlink hunlink
    have hdir : s.files.get? q ≠ some .directory := by rw [hthere]; simp
    refine h.of_files (sameDirectories_remove hdir) fun c hc p hp => ?_
    have hne : p ≠ q := fun heq => hfree c hc q hq (heq ▸ hp)
    rw [get?_remove (ne_nil_of_get? hdir), if_neg hne]

theorem reaches (h : s.Sound) (hreach : Reaches s s') : s'.Sound := by
  induction hreach with
  | refl => exact h
  | tail _ hstep ih => exact ih.step hstep

end Sound

/-! ### Orderly claims -/

/-- A claim can have its artifact: its lock leads somewhere, no claim holds it, and the artifact is
not there. -/
structure IsAvailable (s : Claimants) (c : Claim) : Prop where
  /-- The lock leads somewhere. -/
  leads : c.lock? s.files ≠ none
  /-- No claim holds it. -/
  free : ∀ d ∈ s.claims, d.held = true → d.lock? s.files ≠ c.lock? s.files
  /-- The artifact is not there. -/
  absent : s.files.at? c.artifact = none

/-- What holds of claims at any time, and of whatever one of them does next. -/
structure Orderly (s : Claimants) : Prop where
  /-- At most one claim holds the lock of an artifact. -/
  single : ∀ (i j : Nat) (c d : Claim), s.claims[i]? = some c → s.claims[j]? = some d →
    c.held = true → d.held = true → c.lock? s.files = d.lock? s.files → i = j
  /-- The lock of an artifact is there if one claim holds it, and only then. -/
  lock : ∀ c ∈ s.claims, s.files.at? (lockPath c.artifact) ≠ none ↔
    ∃! j : Nat, ∃ d, s.claims[j]? = some d ∧ d.held = true ∧ d.lock? s.files = c.lock? s.files
  /-- A claim that can have its artifact gets it, and no other does. -/
  answer : ∀ c ∈ s.claims, ∀ (frontEnd : FrontEnd) (answer : Except FileError Bool) (c' : Claim)
    (w' : World), c.acquire.runIn frontEnd s.world = ((answer, c'), w') →
      (answer = .ok true ↔ s.IsAvailable c)
  /-- A claim that gets its artifact holds the lock, which is there now. -/
  taken : ∀ c ∈ s.claims, ∀ (frontEnd : FrontEnd) (c' : Claim) (w' : World),
    c.acquire.runIn frontEnd s.world = ((.ok true, c'), w') →
      c' = { c with held := true } ∧ w'.files.at? (lockPath c.artifact) = some (.file [])
  /-- Any other answer changes nothing. -/
  refused : ∀ c ∈ s.claims, ∀ (frontEnd : FrontEnd) (answer : Except FileError Bool) (c' : Claim)
    (w' : World), c.acquire.runIn frontEnd s.world = ((answer, c'), w') → answer ≠ .ok true →
      c' = c ∧ w' = s.world
  /-- A claim that holds nothing gives nothing back. -/
  kept : ∀ c ∈ s.claims, c.held = false → ∀ frontEnd : FrontEnd,
    c.release.runIn frontEnd s.world = ((.ok (), c), s.world)
  /-- A claim that holds its lock gives it back, and nothing else. -/
  freed : ∀ c ∈ s.claims, c.held = true → ∀ frontEnd : FrontEnd, ∃ p, c.lock? s.files = some p ∧
    c.release.runIn frontEnd s.world
      = ((.ok (), { c with held := false }), { s.world with files := s.files.remove p })

namespace Sound

/-- Whoever holds a lock that is there is the only one. -/
theorem lock_iff (h : s.Sound) (hc : c ∈ s.claims) :
    s.files.at? (lockPath c.artifact) ≠ none ↔
      ∃! j : Nat, ∃ d, s.claims[j]? = some d ∧ d.held = true ∧
        d.lock? s.files = c.lock? s.files := by
  constructor
  · intro hthere
    obtain ⟨p, hp, hthere⟩ := exists_of_at?_ne_none hthere
    obtain ⟨j, d, hj, hd, hdp⟩ := h.holder c hc p hp hthere
    refine ⟨j, ⟨d, hj, hd, hdp.trans hp.symm⟩, ?_⟩
    rintro k ⟨e, hk, he, heq⟩
    exact h.single k j e d hk hj he hd (heq.trans (hp.trans hdp.symm))
  · rintro ⟨j, ⟨d, hj, hd, heq⟩, -⟩
    obtain ⟨p, hp, hthere⟩ := h.held d (List.mem_of_getElem? hj) hd
    rw [at?_of_place? (heq.symm.trans hp), hthere]
    simp

/-- Where the lock of a claim is not there no claim holds it. -/
theorem free_of_absent (h : s.Sound) (hp : c.lock? s.files = some p)
    (habsent : s.files.get? p = none) {d : Claim} (hd : d ∈ s.claims) (hheld : d.held = true) :
    d.lock? s.files ≠ c.lock? s.files := fun heq => by
  rw [h.not_held_of_absent hd (heq.trans hp) habsent] at hheld
  exact absurd hheld (by simp)

/-- A claim that can have its artifact finds its lock not there. -/
theorem absent_of_isAvailable (h : s.Sound) (hc : c ∈ s.claims) (havailable : s.IsAvailable c) :
    s.files.at? (lockPath c.artifact) = none := by
  by_contra hthere
  obtain ⟨j, ⟨d, hj, hd, heq⟩, -⟩ := (h.lock_iff hc).1 hthere
  exact havailable.free d (List.mem_of_getElem? hj) hd heq

theorem orderly (h : s.Sound) : s.Orderly where
  single := h.single
  lock c hc := h.lock_iff hc
  answer c hc frontEnd answer c' w' hrun := by
    cases Claim.acquires_of_runIn (h.named c hc) hrun with
    | refused there =>
      refine ⟨fun htrue => absurd htrue (by simp), fun havailable => ?_⟩
      exact absurd (h.absent_of_isAvailable hc havailable) there
    | raised nowhere =>
      -- where the lock leads nowhere nothing is available
      exact ⟨fun htrue => absurd htrue (by simp), fun havailable => absurd nowhere havailable.leads⟩
    | late place free there =>
      exact ⟨fun htrue => absurd htrue (by simp), fun havailable => absurd havailable.absent there⟩
    | taken place free absent =>
      refine ⟨fun _ => ⟨?_, fun d hd hheld => h.free_of_absent place free hd hheld, absent⟩,
        fun _ => rfl⟩
      rw [place]
      simp
  taken c hc frontEnd c' w' hrun := by
    cases Claim.acquires_of_runIn (h.named c hc) hrun with
    | @taken p place free absent =>
      have hdir : s.files.get? p ≠ some .directory := by rw [free]; simp
      refine ⟨rfl, ?_⟩
      rw [at?_of_place? (((sameDirectories_put hdir []).place?_eq _).trans place),
        get?_put (ne_nil_of_get? hdir), if_pos rfl]
  refused c hc frontEnd answer c' w' hrun hanswer := by
    cases Claim.acquires_of_runIn (h.named c hc) hrun with
    | refused | raised => exact ⟨rfl, rfl⟩
    | late place free =>
      -- a claim whose lock is not there held nothing before
      have hheld := h.not_held_of_absent hc place free
      rw [← hheld]
      exact ⟨rfl, rfl⟩
    | taken => exact absurd rfl hanswer
  kept c hc hheld frontEnd := Claim.runIn_release_of_free hheld frontEnd s.world
  freed c hc hheld frontEnd := by
    obtain ⟨p, hp, hthere⟩ := h.held c hc hheld
    exact ⟨p, hp, Claim.runIn_release_of_held hheld frontEnd hp hthere⟩

end Sound

/-- **Claims exclude each other.**  From claims that have just been made, with no lock there,
however they take their locks and give them back and however files that are no locks come and go:
at any time at most one claim holds the lock of an artifact, and the lock is there exactly then; a
claim gets its artifact if its lock leads somewhere and is held by no claim and the artifact is not
there, and only then; any other answer changes nothing, and neither does a claim that gives back
what it does not hold. -/
theorem orderly_of_reaches (hnew : s.IsNew) (hreach : Reaches s s') : s'.Orderly :=
  ((Sound.of_isNew hnew).reaches hreach).orderly

/-! ### A claim passed on -/

/-- The claims after one of them has tried to take its lock. -/
def acquireAt (s : Claimants) (i : Nat) : Claimants :=
  match s.claims[i]? with
  | some c =>
    let (answer, w) := c.acquire.runIn default s.world
    ⟨w, s.claims.set i answer.2⟩
  | none => s

/-- The claims after one of them has given its lock back. -/
def releaseAt (s : Claimants) (i : Nat) : Claimants :=
  match s.claims[i]? with
  | some c =>
    let (answer, w) := c.release.runIn default s.world
    ⟨w, s.claims.set i answer.2⟩
  | none => s

theorem reaches_acquireAt (s : Claimants) (i : Nat) : Reaches s (s.acquireAt i) := by
  unfold acquireAt
  split
  · next c hi => exact .single (.acquire hi rfl)
  · exact .refl

theorem reaches_releaseAt (s : Claimants) (i : Nat) : Reaches s (s.releaseAt i) := by
  unfold releaseAt
  split
  · next c hi => exact .single (.release hi rfl)
  · exact .refl

/-- Two claims on one artifact. -/
def rivals : Claimants :=
  ⟨.fresh, [⟨⟨.relative, ["util.obj"]⟩, false⟩, ⟨⟨.relative, ["util.obj"]⟩, false⟩]⟩

/-- The second one gives back what it does not have; the first one takes the lock before the second
one wants it, and gives it back. -/
def relay : Claimants :=
  ((((rivals.releaseAt 1).acquireAt 0).acquireAt 1).releaseAt 0).acquireAt 1

/-- A lock that is passed on is held by one claim at a time. -/
theorem orderly_relay :
    rivals.IsNew ∧ Reaches rivals relay ∧ relay.claims.map Claim.held = [false, true] ∧
      relay.files.entries.map Prod.fst = [["work"], ["work", "util.obj.lock"]] ∧
      relay.Orderly := by
  have hnew : rivals.IsNew := by
    constructor
    · simp only [rivals, List.mem_cons, List.not_mem_nil, or_false, or_self, forall_eq]
      rfl
    · decide +kernel
  have hreach : Reaches rivals relay :=
    ((((reaches_releaseAt _ _).trans (reaches_acquireAt _ _)).trans (reaches_acquireAt _ _)).trans
      (reaches_releaseAt _ _)).trans (reaches_acquireAt _ _)
  exact ⟨hnew, hreach, by decide +kernel, by decide +kernel, orderly_of_reaches hnew hreach⟩

end Claimants

end DeclGraph
