import DeclGraph.Proofs.Batch.Mirror
import DeclGraph.Proofs.CommandLine.Preparation
import DeclGraph.Proofs.FileSystem.Form
import DeclGraph.Proofs.Invocation.Distinct
import DeclGraph.Proofs.Invocation.File

/-!
# What writing a document leaves

Writing a document puts its octets at one place, and makes the directories that are missing above it
(`FileSystem.Stored`).  Documents that are read afterwards read as before, or cannot be read before
nor afterwards (`FileSystem.Stored.alike_text`), unless they could only be read afterwards.

The document of a split reads as the invocations that were written (`SplitCommand.invocations_eq`),
so the batch that is found in it is the one that is found with the same targets in the document that
was split (`RunCommand.alike_batchIn`).
-/

namespace DeclGraph

open FileSystem

/-! ### Files -/

namespace FileSystem

variable {fs fs' : FileSystem} {path : Path} {p q : Place} {content : List UInt8}

theorem read_eq_ok_iff {octets : List UInt8} : fs.read path = .ok octets ↔
    ∃ q, fs.place? path = some q ∧ fs.get? q = some (.file octets) := by
  constructor
  · intro h
    unfold read at h
    split at h
    · next q content hlocate =>
      obtain ⟨hplace, hentry⟩ := of_locate hlocate
      rw [← Except.ok.inj h]
      exact ⟨q, hplace, hentry.symm⟩
    · exact absurd h (by simp)
    · exact absurd h (by simp)
    · exact absurd h (by simp)
  · rintro ⟨q, hplace, hentry⟩
    rw [read, locate_of_place? hplace, hentry]

theorem read_of_holdsNull (h : path.HoldsNull) : fs.read path = .error .embeddedNull := by
  rw [read, locate_eq_embeddedNull_iff.2 h]

/-- Reading is refused by the file system, unless the path is none. -/
theorem isFromSystem_of_read (hnull : ¬ path.HoldsNull) {e : FileError}
    (h : fs.read path = .error e) : e.isFromSystem = true := by
  by_contra hsystem
  obtain rfl := FileError.eq_embeddedNull (Bool.eq_false_iff.2 hsystem)
  exact hnull (holdsNull_of_read h)

/-- A directory is there that was not there before. -/
def IsNew (fs fs' : FileSystem) (q : Place) : Prop :=
  fs.get? q = none ∧ fs'.get? q = some .directory

/-- A file has been written, with the directories that were missing above it. -/
structure Stored (fs fs' : FileSystem) (path : Path) (p : Place) (content : List UInt8) :
    Prop where
  /-- It is where its path leads. -/
  place : fs'.place? path = some p
  /-- It can be read. -/
  read : fs'.read path = .ok content
  /-- Nothing else differs but new directories. -/
  adds : Adds (IsNew fs fs') p fs fs'
  /-- Directories stay. -/
  keeps : KeepsDirectories fs fs'
  /-- A tree stays one. -/
  isTree : fs.IsTree → fs'.IsTree

/-- A file that is written in a tree leaves a tree. -/
theorem IsTree.of_write (htree : fs.IsTree) (h : fs.write path content = .ok fs') :
    fs'.IsTree := by
  obtain ⟨p, hplace, hfile, rfl⟩ := FileSystem.of_write h
  exact htree.put (ne_nil_of_get? hfile) (htree.dropLast_of_place? hplace)
    (sameDirectories_put hfile content).keepsDirectories

/-- A text that is written is stored. -/
theorem stored_of_writeText {text : String} (h : (fs.writeText path text).2 = .ok ()) :
    ∃ p, Stored fs (fs.writeText path text).1 path p (Utf8.encode text) := by
  obtain ⟨fs₁, hmake, hwrite⟩ := exists_of_writeText h
  have hgrows := makeDirectories_grows fs path.parent true
  rw [hmake] at hgrows
  set fs₂ := (fs.writeText path text).1
  obtain ⟨p, hplace, hfile, hput⟩ := of_write hwrite
  have hget (q : Place) : fs₂.get? q
      = if q = p then some (.file (Utf8.encode text)) else fs₁.get? q := by
    rw [hput]
    exact get?_put (ne_nil_of_get? hfile) _ q
  have hkeeps : KeepsDirectories fs₁ fs₂ := by
    rw [hput]
    exact (sameDirectories_put hfile _).keepsDirectories
  have hkeeps' : KeepsDirectories fs fs₂ := hgrows.keepsDirectories.trans hkeeps
  refine ⟨p, hkeeps.place?_eq_some hplace, read_of_write hwrite,
    ⟨hkeeps'.workingDirectory, fun q hq => ⟨hq.2, .inl hq.1⟩, fun q hne hold => ?_⟩, hkeeps',
    fun htree => (hgrows.isTree htree).of_write hwrite⟩
  -- what stands elsewhere stood there before, for no directory is new there
  rw [hget, if_neg hne]
  refine (hgrows.entry q).resolve_right ?_
  rintro ⟨hnone, hdirectory, -⟩
  exact hold ⟨hnone, by rw [hget, if_neg hne, hdirectory]⟩

namespace Stored

variable (h : Stored fs fs' path p content)

include h

/-- A file that can be read is still read, unless it is the one that was written. -/
theorem read_of_read {other : Path} {octets : List UInt8} (hread : fs.read other = .ok octets)
    (hback : ∀ octets, fs'.read other = .ok octets → fs.read other = .ok octets) :
    fs'.read other = .ok octets := by
  obtain ⟨q, hplace, hentry⟩ := read_eq_ok_iff.1 hread
  have hplace' := h.keeps.place?_eq_some hplace
  by_cases hq : q = p
  · -- it is the file that was written, and reads as before
    obtain ⟨p', hp', hcontent⟩ := read_eq_ok_iff.1 h.read
    obtain rfl := Option.some.inj (h.place.symm.trans hp')
    have hread' : fs'.read other = .ok content :=
      read_eq_ok_iff.2 ⟨q, hplace', by rw [hq, hcontent]⟩
    rw [hread', ← hback content hread', hread]
  · have hold : ¬ IsNew fs fs' q := by
      rintro ⟨hnone, -⟩
      rw [hnone] at hentry
      exact absurd hentry (by simp)
    exact read_eq_ok_iff.2 ⟨q, hplace', (h.adds.same q hq hold).trans hentry⟩

/-- Another document reads as before, or it cannot be read before nor afterwards. -/
theorem alike_text {other : Path}
    (hback : ∀ octets, fs'.read other = .ok octets → fs.read other = .ok octets) :
    Failure.Alike Failure.isRefused (fs.text other) (fs'.text other) := by
  unfold text
  by_cases hnull : other.HoldsNull
  · left
    rw [read_of_holdsNull hnull, read_of_holdsNull hnull]
  · cases hread : fs.read other with
    | ok octets =>
      left
      rw [h.read_of_read hread hback]
    | error e =>
      cases hread' : fs'.read other with
      | ok octets =>
        rw [hback octets hread'] at hread
        exact absurd hread (by simp)
      | error e' =>
        exact .inr ⟨.file e, .file e', rfl, rfl, isFromSystem_of_read hnull hread,
          isFromSystem_of_read hnull hread'⟩

/-- So do the rules in another document. -/
theorem alike_rules {other : Path}
    (hback : ∀ octets, fs'.read other = .ok octets → fs.read other = .ok octets) :
    Failure.Alike Failure.isRefused (fs.rules other) (fs'.rules other) := by
  unfold rules
  rcases h.alike_text hback with heq | ⟨e, e', herror, herror', hrefused⟩
  · rw [heq]
    exact .inl rfl
  · rw [herror, herror']
    exact .inr ⟨e, e', rfl, rfl, hrefused⟩

end Stored

/-- The settings of invocations that are read have one value each. -/
theorem isDistinct_of_invocations {invs : List Invocation} (h : fs.invocations path = .ok invs) :
    ∀ inv ∈ invs, inv.IsDistinct := by
  unfold invocations at h
  split at h
  · exact absurd h (by simp)
  · next text _ =>
    cases hlist : Invocation.listOfText text with
    | error e =>
      rw [hlist] at h
      exact absurd h (by simp [Except.mapError])
    | ok invs' =>
      rw [hlist] at h
      obtain rfl := Except.ok.inj h
      exact Invocation.isDistinct_of_listOfText hlist

/-- A document that is read is there. -/
theorem exists_of_invocations {invs : List Invocation} (h : fs.invocations path = .ok invs) :
    fs.exists path = .ok true := by
  unfold invocations at h
  split at h
  · exact absurd h (by simp)
  · next htext =>
    unfold text at htext
    split at htext
    · next octets hread => exact exists_of_read hread
    · exact absurd htext (by simp)

end FileSystem

/-! ### Commands -/

variable {fs fs' : FileSystem} {p : Place} {content : List UInt8} {path : Path}

namespace RunCommand

variable {c c' : RunCommand}

/-- The rules that a command finds after a document was written are those that it found before. -/
theorem alike_rulesIn (h : Stored fs fs' path p content) (hrules : c'.rules? = c.rules?)
    (hback : ∀ other octets, c.rules? = some other →
      fs'.read (Path.ofText other) = .ok octets → fs.read (Path.ofText other) = .ok octets) :
    Failure.Alike Failure.isRefused (c.rulesIn fs) (c'.rulesIn fs') := by
  unfold rulesIn
  rw [hrules]
  cases hother : c.rules? with
  | none => exact .inl rfl
  | some other =>
    dsimp only
    split
    · exact .inl rfl
    · exact h.alike_rules fun octets => hback other octets hother

end RunCommand

namespace SplitCommand

variable {s : SplitCommand} {c : RunCommand} {invs : List Invocation}

/-- A run with the targets of a split, on the document that is split. -/
def inMemory (s : SplitCommand) (c : RunCommand) : RunCommand :=
  { c with config := s.config, targets := s.targets }

/-- A run on the document that a split writes. -/
def onDocument (s : SplitCommand) (c : RunCommand) : RunCommand :=
  { c with config := s.output, targets := [] }

/-- The document of a split reads as the invocations that were chosen. -/
theorem invocations_eq (hinvs : fs.invocations (Path.ofText s.config) = .ok invs)
    (h : Stored fs fs' (Path.ofText s.output) p
      (Utf8.encode (Invocation.listToText (s.chosen invs)))) :
    fs'.invocations (Path.ofText s.output) = .ok (s.chosen invs) := by
  have hdistinct := Invocation.isDistinct_of_split (isDistinct_of_invocations hinvs) s.targets
  refine invocations_of_text hdistinct ?_
  rw [text, h.read]
  exact TextFile.ofOctets_encode (Invocation.return_notMem_listToText hdistinct)

/-- The batch that is found in the document of a split is the one that is found with the same
targets in the document that was split. -/
theorem alike_batchIn (htargets : s.targets ≠ [])
    (hinvs : fs.invocations (Path.ofText s.config) = .ok invs)
    (h : Stored fs fs' (Path.ofText s.output) p
      (Utf8.encode (Invocation.listToText (s.chosen invs))))
    (hback : ∀ other octets, c.rules? = some other →
      fs'.read (Path.ofText other) = .ok octets → fs.read (Path.ofText other) = .ok octets) :
    Failure.Alike Failure.isRefused ((s.inMemory c).batchIn fs) ((s.onDocument c).batchIn fs') := by
  have hrules : Failure.Alike Failure.isRefused ((s.inMemory c).rulesIn fs)
      ((s.onDocument c).rulesIn fs') := RunCommand.alike_rulesIn h rfl hback
  -- there are targets, so the invocations are split and not taken as they are
  have hmemory : (s.inMemory c).chosen invs = s.chosen invs := by
    rw [RunCommand.chosen, if_neg]
    · rfl
    · exact fun hempty => htargets (List.isEmpty_iff.1 hempty)
  unfold RunCommand.batchIn
  rw [show (s.inMemory c).config = s.config from rfl, hinvs,
    show (s.onDocument c).config = s.output from rfl, invocations_eq hinvs h]
  dsimp only
  rw [hmemory]
  rcases hrules with heq | ⟨e, e', herror, herror', hrefused⟩
  · rw [heq]
    exact .inl rfl
  · rw [herror, herror']
    unfold inMemory onDocument
    dsimp only
    split_ifs
    · exact .inl rfl
    · exact .inl rfl
    · exact .inr ⟨e, e', rfl, rfl, hrefused⟩

end SplitCommand

end DeclGraph
