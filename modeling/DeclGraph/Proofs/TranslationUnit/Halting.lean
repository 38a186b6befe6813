import DeclGraph.Proofs.TranslationUnit.Circles
import DeclGraph.Proofs.TranslationUnit.Records

/-!
# Conversions of units come to an end

Statements, functions and namespaces lead to types and declarations and are never led back to from
there.  So the conversion of a unit can be taken apart into steps that publish nothing and demands
(`Recipe.TakesApart`, `HasRecipe.convertUnit`).  However it is taken apart, following the recipe
without any fuel comes to an end, to what the conversion comes to, and enters each body once at
most (`HaltsOnce`): `conversion_halts`.
-/

namespace DeclGraph

variable {s : ConversionSetting} {α β : Type}

/-! ### Recipes of steps -/

/-- The recipe takes a step apart into steps that publish nothing and proper demands, to be answered
by the conversions of types and declarations. -/
structure Recipe.TakesApart (P : Recipe α) (s : ConversionSetting) (x : Convert α) : Prop where
  calm : P.Calm (Demand.IsProper s.unit)
  exec : P.exec (Demand.within s s.unit.depthLimit) = x

/-- The step can be taken apart. -/
def HasRecipe (s : ConversionSetting) (x : Convert α) : Prop := ∃ P : Recipe α, P.TakesApart s x

/-- What follows a step that comes to one value only needs to know that value. -/
theorem Reads.bind_eq {x : Convert α} {v : α} (hx : Reads x v) (f : α → Convert β) :
    x >>= f = x >>= fun _ => f v := by
  funext σ
  change (x.run σ >>= fun result => (f result.1).run result.2) =
    (x.run σ >>= fun result => (f v).run result.2)
  cases hrun : x.run σ with
  | error e => rfl
  | ok result =>
    obtain ⟨hv, _⟩ := hx _ _ _ hrun
    exact congrArg (fun a => (f a).run result.2) hv

namespace HasRecipe

open DeclGraph.Convert

variable {x : Convert α} {f : α → Convert β}

theorem quiet (hx : Quiet x) : HasRecipe s x := ⟨.step x, .step hx, Recipe.exec_step _ x⟩

theorem pure (a : α) : HasRecipe s (pure a : Convert α) := quiet (.pure a)

theorem call {q : Demand α} (hq : q.IsProper s.unit) :
    HasRecipe s (q.within s s.unit.depthLimit) := ⟨.call q, .call hq, Recipe.exec_call _ q⟩

theorem bind (hx : HasRecipe s x) (hf : ∀ a, HasRecipe s (f a)) : HasRecipe s (x >>= f) := by
  obtain ⟨P, hP, rfl⟩ := hx
  choose Q hQ using hf
  refine ⟨P >>= Q, hP.bind fun a => (hQ a).calm, ?_⟩
  rw [Recipe.exec_bind]
  exact congrArg _ (funext fun a => (hQ a).exec)

theorem reads_bind {v : α} (hx : Reads x v) (hf : HasRecipe s (f v)) : HasRecipe s (x >>= f) := by
  rw [hx.bind_eq]
  exact (quiet (.of_reads hx)).bind fun _ => hf

theorem ite {p : Prop} [Decidable p] {y : Convert α} (hx : p → HasRecipe s x)
    (hy : ¬p → HasRecipe s y) : HasRecipe s (if p then x else y) := by
  split_ifs with hp
  · exact hx hp
  · exact hy hp

/-! ### Types and declarations -/

theorem typeNode (t? : Option TypeId) : HasRecipe s (typeNode s t?) := call (q := .type t?) trivial

theorem recordNode {c : CursorId} (h : (s.unit.cursor c).kind.isRecord) (parent : Value) :
    HasRecipe s (recordNode s c parent) := call (q := .record c parent) (.cursor (if_pos h))

theorem enumNode {c : CursorId} (h : (s.unit.cursor c).kind = .enum) (parent : Value) :
    HasRecipe s (enumNode s c parent) := call (q := .enum c parent) (.cursor (by rw [h]; rfl))

theorem typedefNode {c : CursorId} (h : (s.unit.cursor c).kind = .typedef) (parent : Value) :
    HasRecipe s (typedefNode s c parent) :=
  call (q := .typedef c parent) (.cursor (by rw [h]; rfl))

theorem fieldNode (c : CursorId) (parent : Value) : HasRecipe s (fieldNode s c parent) :=
  call (q := .field c parent) trivial

/-! ### Statements -/

theorem statementNode (parent : Value) (c : CursorId) : HasRecipe s (statementNode s parent c) := by
  refine reads_bind (.kindOf _) (reads_bind (.nameOf _) ?_)
  refine (quiet (.spanOf _)).bind fun _ => (quiet (.add _)).bind fun id => ?_
  refine ite (fun _ => ?_) fun _ => pure id
  refine reads_bind (.typeOf _) ((typeNode _).bind fun _ => ?_)
  exact (quiet (.setField id (by simp) _)).bind fun _ => pure id

theorem statementNodes (parent : Value) (ts : List CursorTree) :
    HasRecipe s (statementNodes s parent ts) := by
  induction ts with
  | nil => exact pure []
  | cons t rest ih => exact (statementNode parent t.id).bind fun _ => ih.bind fun _ => pure _

theorem expand (pending : Pending) : HasRecipe s (expand s pending) := by
  generalize hw : weight pending = w
  induction w using Nat.strong_induction_on generalizing pending with
  | _ w ih =>
    obtain _ | ⟨⟨t, id⟩, rest⟩ := pending
    · rw [Convert.expand]
      exact pure ()
    · rw [Convert.expand]
      refine (statementNodes _ _).bind fun ids => ?_
      refine (quiet (.setField id (by simp) _)).bind fun _ => ?_
      -- The stack that is left weighs less, whichever nodes the statements have become.
      refine ih _ ?_ _ rfl
      have below := weight_zip_le t.children ids
      have top := t.size_eq
      simp only [weight, List.map_append, List.map_reverse, CursorTree.sizes_append,
        CursorTree.sizes_reverse, List.map_cons, CursorTree.sizes] at below hw ⊢
      omega

theorem addStatement (parent : Value) (t : CursorTree) : HasRecipe s (addStatement s parent t) :=
  (statementNode parent t.id).bind fun _ => (expand _).bind fun _ => pure _

theorem addStatements (parent : Value) (ts : List CursorTree) :
    HasRecipe s (addStatements s parent ts) := by
  induction ts with
  | nil => exact pure []
  | cons t rest ih => exact (addStatement parent t).bind fun _ => ih.bind fun _ => pure _

/-! ### Functions -/

theorem addParameters (parent : Value) (cs : List CursorId) :
    HasRecipe s (addParameters s parent cs) := by
  induction cs with
  | nil => exact pure []
  | cons c rest ih =>
    refine reads_bind (.nameOf _) (reads_bind (.typeOf _) ((typeNode _).bind fun _ => ?_))
    refine (quiet (.spanOf _)).bind fun _ => (quiet (.add _)).bind fun _ => ?_
    exact ih.bind fun _ => pure _

theorem addFunctionParts (id : NodeId) (ts : List CursorTree) :
    HasRecipe s (addFunctionParts s id ts) := by
  induction ts with
  | nil => exact pure ()
  | cons t rest ih =>
    refine reads_bind (.kindOf _) ?_
    split_ifs
    · exact (addStatements _ _).bind fun _ => (quiet (.setField id (by simp) _)).bind fun _ => ih
    · exact (quiet (.addAttribute _ _)).bind fun _ =>
        (quiet (.append id (by simp) _)).bind fun _ => ih
    · exact ih

theorem addFunction (t : CursorTree) (parent : Value) : HasRecipe s (addFunction s t parent) := by
  refine reads_bind (.nameOf _) ((typeNode _).bind fun _ => reads_bind (.markersOf _ _) ?_)
  refine (quiet (.spanOf _)).bind fun _ => (quiet (.add _)).bind fun id => ?_
  refine (addParameters _ _).bind fun _ => (quiet (.setField id (by simp) _)).bind fun _ => ?_
  exact (addFunctionParts id t.children).bind fun _ => pure id

/-! ### Namespaces -/

mutual

theorem visit (container : NodeId) : (t : CursorTree) → HasRecipe s (visit s container t)
  | .node c children => by
    rw [Convert.visit]
    -- what is visited is listed in the container, which takes no fuel
    have listed {name : String} (h : name ≠ "is_definition") {x : Convert NodeId}
        (hx : HasRecipe s x) : HasRecipe s (x >>= fun id => append container name id) :=
      hx.bind fun id => quiet (.append container h id)
    have listedOnce {name : String} (h : name ≠ "is_definition") {x : Convert NodeId}
        (hx : HasRecipe s x) : HasRecipe s (x >>= fun id => appendOnce container name id) :=
      hx.bind fun id => quiet (.appendOnce container h id)
    refine reads_bind (.kindOf _) (ite (fun _ => ?_) fun _ => ite (fun hrecord => ?_) fun _ =>
      ite (fun henum => ?_) fun _ => ite (fun htypedef => ?_) fun _ => ite (fun _ => ?_) fun _ =>
      ite (fun _ => ?_) fun _ => pure ())
    · exact listed (by simp) (addFunction _ _)
    · exact listedOnce (by simp) (recordNode hrecord _)
    · exact listedOnce (by simp) (enumNode henum _)
    · exact listedOnce (by simp) (typedefNode htypedef _)
    · exact listed (by simp) (fieldNode c _)
    · refine reads_bind (.nameOf _) ((quiet (.spanOf _)).bind fun _ => ?_)
      refine (quiet (.add _)).bind fun id => (visitAll id children).bind fun _ => ?_
      exact quiet (.append container (by simp) id)

theorem visitAll (container : NodeId) : (ts : List CursorTree) →
    HasRecipe s (visitAll s container ts)
  | [] => pure ()
  | t :: rest => (visit container t).bind fun _ => visitAll container rest

end

/-! ### Units -/

theorem visitTop (id : NodeId) (cs : List CursorId) : HasRecipe s (visitTop s id cs) := by
  induction cs with
  | nil => exact pure ()
  | cons c rest ih =>
    refine reads_bind (.check _) ?_
    split_ifs
    · refine reads_bind (.kindOf _) ?_
      split_ifs
      · exact (quiet (.addMacro _ _)).bind fun _ =>
          (quiet (.append id (by simp) _)).bind fun _ => ih
      · exact (quiet (.addAttribute _ _)).bind fun _ =>
          (quiet (.append id (by simp) _)).bind fun _ => ih
      · exact (visit id _).bind fun _ => ih
    · exact ih

theorem convertUnit (source : String) : HasRecipe s (convertUnit s source) :=
  (quiet (.mapM .addRemark _)).bind fun _ => (quiet (.add _)).bind fun id =>
    (visitTop id _).bind fun _ => pure id

end HasRecipe

/-! ### Without fuel -/

/-- The fuel of a conversion lasts for all bodies of a unit. -/
theorem TranslationUnit.reach_le (u : TranslationUnit) :
    u.reach (u.left ∅) + u.types.size + 3 + 1 ≤ u.depthLimit :=
  calc u.reach (u.left ∅) + u.types.size + 3 + 1
      = (u.types.size + 4) * (u.left ∅ + 1) := u.reach_succ (u.left ∅)
    _ ≤ (u.types.size + 8) * (u.cursors.size + u.types.size + 2) :=
      Nat.mul_le_mul (by omega) (by have := u.left_empty_le; omega)
    _ = u.depthLimit := Nat.mul_comm _ _

/-- However a conversion is taken apart, following the recipes comes to an end, to what the
conversion comes to.  It enters no body twice, and in the end what has been published tells of the
bodies that were entered. -/
def HaltsOnce (s : ConversionSetting) (x : Convert α) : Prop :=
  ∀ P : Recipe α, P.TakesApart s x → ∃ bodies r, Comes s s.unit.depthLimit P .start bodies r ∧
    x.run .start = r ∧ bodies.Nodup ∧ ∀ a σ, r = .ok (a, σ) → ∀ b, σ.Knows b ↔ b ∈ bodies

theorem HaltsOnce.of_names {x : Convert α} (hkeys : s.unit.KeysTellKinds)
    (hnames : s.unit.NamesEnd) : HaltsOnce s x := by
  intro P hP
  have hcalm : P.Calm (Demand.IsBelow s.unit (s.unit.types.size + 3)) :=
    hP.calm.imp fun _ q hq => ⟨hq, q.rank_le s.unit⟩
  have hhalts : Halts s s.unit.depthLimit P .start ∅ :=
    ((Safe.all hkeys hnames _).calm hcalm (.start s.unit) le_rfl).mono s.unit.reach_le
  obtain ⟨bodies, r, hcomes, hnodup, _, hremembers⟩ := hhalts
  refine ⟨bodies, r, hcomes, hP.exec ▸ hcomes.run le_rfl, hnodup, fun a σ heq b => ?_⟩
  rw [(hremembers a σ heq).knows, Finset.empty_union, List.mem_toFinset]

/-- The conversion of a unit comes to an end, whatever circles there are in the unit, and enters
each body once at most. -/
theorem TranslationUnit.conversion_halts (hkeys : s.unit.KeysTellKinds) (hnames : s.unit.NamesEnd)
    (source : String) :
    HasRecipe s (Convert.convertUnit s source) ∧ HaltsOnce s (Convert.convertUnit s source) :=
  ⟨.convertUnit source, .of_names hkeys hnames⟩

/-- The record of a list leads back to itself, and its conversion comes to an end. -/
theorem conversion_halts_linkedList :
    linkedList.KeysTellKinds ∧ linkedList.NamesEnd ∧
      HasRecipe ⟨linkedList, default⟩ (Convert.convertUnit ⟨linkedList, default⟩ "list.c") ∧
      HaltsOnce ⟨linkedList, default⟩ (Convert.convertUnit ⟨linkedList, default⟩ "list.c") := by
  have hkeys : linkedList.KeysTellKinds := by decide +kernel
  have hnames : linkedList.NamesEnd := by
    intro t?
    match t? with
    | none => exact ⟨0, .nothing⟩
    | some 0 => exact ⟨0, .named (by decide)⟩
    | some 1 => exact ⟨1, .elaborated rfl (.named (by decide))⟩
    | some 2 => exact ⟨0, .named (by decide)⟩
    | some (t + 3) => exact ⟨0, .named (by change TypeKind.invalid.shape ≠ .elaborated; decide)⟩
  exact ⟨hkeys, hnames, TranslationUnit.conversion_halts hkeys hnames "list.c"⟩

end DeclGraph
