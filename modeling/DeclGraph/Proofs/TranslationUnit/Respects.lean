import DeclGraph.Proofs.TranslationUnit.Declarations

/-!
# What steps leave alone

`Respects R` says of a step that whenever it comes to something, the conversion before it and the
one after it are related by `R`.  Where the relation is `Tolerant` (nothing may happen, steps may
follow each other, and nodes may be added) the steps that depend on a single cursor respect it, and
every step does that is made of such steps.
-/

namespace DeclGraph

/-- Whether a node is a function or a statement. -/
def Node.isCode (n : Node) : Bool := n.isKind .function || n.isKind .statement

/-- What was there before a step and what is there when it comes to something are related. -/
def Respects {α : Type} (R : Conversion → Conversion → Prop) (x : Convert α) : Prop :=
  ∀ σ a σ', x.run σ = .ok (a, σ') → R σ σ'

/-- A relation that allows any number of steps, and nodes that are no functions and no statements
to be added. -/
class Tolerant (R : Conversion → Conversion → Prop) : Prop where
  refl : ∀ σ, R σ σ
  trans : ∀ {σ σ₁ σ₂}, R σ σ₁ → R σ₁ σ₂ → R σ σ₂
  add : ∀ σ n, n.isCode = false → R σ { σ with graph := σ.graph.add n }

namespace Respects

open DeclGraph.Convert

variable {α β : Type} {R : Conversion → Conversion → Prop} {x y : Convert α} {f : α → Convert β}
  {v : α} {s : ConversionSetting}

/-! ### Steps in general -/

theorem throw (e : Fault) : Respects R (throw e : Convert α) := by
  intro σ a σ' hrun
  exact absurd hrun (by simp [MonadExcept.throw, throwThe, MonadExceptOf.throw, StateT.run,
    StateT.lift, Bind.bind, Except.bind])

theorem reads_bind (hx : Reads x v) (hf : Respects R (f v)) : Respects R (x >>= f) := by
  intro σ b σ' hrun
  rw [StateT.run_bind] at hrun
  obtain ⟨⟨a, σ₁⟩, hxrun, hfrun⟩ := exists_of_bind_eq_ok hrun
  obtain ⟨rfl, rfl⟩ := hx _ _ _ hxrun
  exact hf _ _ _ hfrun

theorem node_bind {id : NodeId} {f : Node → Convert β} (hf : ∀ n, Respects R (f n)) :
    Respects R (node id >>= f) := fun σ => hf _ σ

theorem converted_bind {key : TypeKind × String} {f : Option NodeId → Convert β}
    (hf : ∀ found, Respects R (f found)) : Respects R (converted? key >>= f) := fun σ => hf _ σ

theorem ite {P : Prop} [Decidable P] (hx : Respects R x) (hy : Respects R y) :
    Respects R (if P then x else y) := by
  split_ifs
  · exact hx
  · exact hy

variable [Tolerant R]

theorem of_reads (h : Reads x v) : Respects R x := by
  intro σ a σ' hrun
  obtain ⟨_, rfl⟩ := h _ _ _ hrun
  exact Tolerant.refl _

theorem pure (a : α) : Respects R (pure a : Convert α) := of_reads (.pure a)

theorem bind (hx : Respects R x) (hf : ∀ a, Respects R (f a)) : Respects R (x >>= f) := by
  intro σ b σ' hrun
  rw [StateT.run_bind] at hrun
  obtain ⟨⟨a, σ₁⟩, hxrun, hfrun⟩ := exists_of_bind_eq_ok hrun
  exact Tolerant.trans (hx _ _ _ hxrun) (hf a _ _ _ hfrun)

theorem forM {f : α → Convert Unit} (hf : ∀ a, Respects R (f a)) (as : List α) :
    Respects R (as.forM f) := by
  induction as with
  | nil => exact pure ()
  | cons a rest ih => exact (hf a).bind fun _ => ih

theorem mapM (hf : ∀ a, Respects R (f a)) (as : List α) : Respects R (as.mapM f) := by
  induction as with
  | nil => exact pure []
  | cons a rest ih =>
    rw [List.mapM_cons]
    exact (hf a).bind fun _ => ih.bind fun _ => pure _

/-! ### Nodes that are added -/

theorem add {n : Node} (hn : n.isCode = false) : Respects R (add n) := by
  intro σ a σ' hrun
  obtain ⟨rfl, rfl⟩ := Prod.mk.inj (Except.ok.inj hrun)
  exact Tolerant.add σ n hn

theorem addPlace (q : SourcePlace) : Respects R (addPlace q) := add rfl

theorem spanOf (c : Cursor) : Respects R (spanOf c) :=
  reads_bind (.check _) ((addPlace _).bind fun _ => (addPlace _).bind fun _ =>
    (add rfl).bind fun _ => pure _)

theorem addAttribute (c : Cursor) (parent : Value) : Respects R (addAttribute c parent) :=
  reads_bind (.kindOf c) (reads_bind (.nameOf c) ((spanOf c).bind fun _ => add rfl))

theorem addMacro (c : Cursor) (parent : Value) : Respects R (addMacro c parent) :=
  reads_bind (.nameOf c) ((spanOf c).bind fun _ => add rfl)

theorem addRemark (r : Remark) : Respects R (addRemark r) := by
  by_cases hfile : r.location.file?.isSome
  · simp only [Convert.addRemark, if_pos hfile, map_eq_pure_bind, bind_assoc, pure_bind]
    exact (addPlace _).bind fun _ => add rfl
  · simp only [Convert.addRemark, if_neg hfile]
    exact (pure _).bind fun _ => add rfl

theorem addEnumItem (c : Cursor) (parent : NodeId) : Respects R (addEnumItem s c parent) :=
  reads_bind (.nameOf _) ((spanOf _).bind fun _ => add rfl)

theorem addAttributes (u : TranslationUnit) (parent : Value) (children : List CursorId) :
    Respects R (addAttributes u parent children) := by
  induction children with
  | nil => exact pure []
  | cons child rest ih =>
    refine reads_bind (.kindOf _) (ite ?_ ih)
    exact (addAttribute _ parent).bind fun _ => ih.bind fun _ => pure _

theorem newRecord (c : Cursor) (parent : Value) : Respects R (newRecord s c parent) :=
  reads_bind (.kindOf c) (reads_bind (.ownNameOf c) ((spanOf c).bind fun _ => add rfl))

theorem newEnum (c : Cursor) (parent : Value) : Respects R (newEnum s c parent) :=
  reads_bind (.ownNameOf c) (reads_bind (.sizeOf _ c) ((spanOf c).bind fun _ => add rfl))

theorem newTypedef (c : Cursor) (parent : Value) : Respects R (newTypedef s c parent) :=
  reads_bind (.nameOf c) (reads_bind (.sizeOf _ c) ((spanOf c).bind fun _ => add rfl))

/-! ### Fields that are set -/

section

variable {id : NodeId} {name : String} (hset : ∀ v, Respects R (setField id name v))

include hset

omit [Tolerant R] in
theorem append (item : NodeId) : Respects R (append id name item) := node_bind fun _ => hset _

theorem appendOnce (item : NodeId) : Respects R (appendOnce id name item) :=
  node_bind fun _ => ite (pure ()) (hset _)

end

theorem adopt {id : NodeId} (hset : ∀ v, Respects R (setField id "parent" v)) (parent : Value) :
    Respects R (adopt id parent) := by
  refine node_bind fun n => ?_
  split
  · exact hset _
  · exact pure ()

theorem addItem {id : NodeId} (hset : ∀ v, Respects R (setField id "items" v)) (child : CursorId) :
    Respects R (addItem s id child) :=
  reads_bind (.kindOf _) (ite ((addEnumItem _ _).bind fun _ => append hset _) (pure ()))

end Respects

end DeclGraph
