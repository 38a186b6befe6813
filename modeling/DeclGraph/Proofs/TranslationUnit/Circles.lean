import DeclGraph.Proofs.TranslationUnit.Memory

/-!
# Circles come to an end

Types and declarations may refer to each other in circles.  Still each body is entered once at
most: what a conversion enters it has published before, and what has been published is not entered.
So the bodies that are left grow fewer (`TranslationUnit.left`), and between two of them there are
no more demands than longer names of types, a field and a member.  `Halts` says of a recipe that it
comes to an end within a depth and enters nothing twice; `Safe.all` says that the recipe of every
demand does.
-/

namespace DeclGraph

namespace TranslationUnit

variable (u : TranslationUnit)

/-! ### Longer names -/

/-- How many longer names there are in front of what a reference leads to. -/
inductive Unfolds : Nat → Option TypeId → Prop
  | nothing : Unfolds 0 none
  | named {t : TypeId} (h : (u.type t).kind.shape ≠ .elaborated) : Unfolds 0 (some t)
  | elaborated {n : Nat} {t : TypeId} (h : (u.type t).kind.shape = .elaborated)
      (hn : Unfolds n (u.type t).namedType?) : Unfolds (n + 1) (some t)

/-- Longer names of types come to an end. -/
def NamesEnd : Prop := ∀ t?, ∃ n, u.Unfolds n t?

variable {u}

namespace Unfolds

variable {n n' : Nat} {t? : Option TypeId}

theorem unique (h : u.Unfolds n t?) (h' : u.Unfolds n' t?) : n = n' := by
  induction h generalizing n' with
  | nothing =>
    cases h'
    rfl
  | named hne =>
    cases h' with
    | named => rfl
    | elaborated heq => exact absurd heq hne
  | elaborated heq _ ih =>
    cases h' with
    | named hne => exact absurd heq hne
    | elaborated _ hn => rw [ih hn]

/-- On the way there is a type for each number of names that are left. -/
theorem exists_of_le (h : u.Unfolds n t?) {i : Nat} (hi : i < n) :
    ∃ t < u.types.size, u.Unfolds (i + 1) (some t) := by
  induction h with
  | nothing | named => exact absurd hi (Nat.not_lt_zero i)
  | elaborated heq hn ih =>
    rcases Nat.lt_succ_iff_lt_or_eq.1 hi with hlt | rfl
    · exact ih hlt
    · exact ⟨_, lt_size_of_shape_ne (by simp [heq]), .elaborated heq hn⟩

/-- These types are all different, so there are no more names than types. -/
theorem le_size (h : u.Unfolds n t?) : n ≤ u.types.size := by
  -- The number of names that are left tells the types on the way apart.
  have hway (i : Fin n) : ∃ t : Fin u.types.size, u.Unfolds (i + 1) (some t) := by
    obtain ⟨t, hlt, ht⟩ := h.exists_of_le i.isLt
    exact ⟨⟨t, hlt⟩, ht⟩
  choose way hway using hway
  have hinj : Function.Injective way := fun i j heq =>
    Fin.ext (Nat.succ.inj ((hway i).unique (heq ▸ hway j)))
  simpa using Fintype.card_le_of_injective way hinj

end Unfolds

/-! ### Bodies that are left -/

variable (u)

/-- The bodies of a unit. -/
def bodies : Finset Body :=
  (Finset.range u.types.size).image (fun t => .type (u.type t).key) ∪
    (Finset.range (u.cursors.size + 1)).image fun c => .declaration (u.cursor c).key

/-- The number of bodies that have not been entered. -/
def left (E : Finset Body) : Nat := (u.bodies \ E).card

variable {u}

theorem type_mem_bodies {t : TypeId} (h : (u.type t).kind.shape ≠ .invalid) :
    .type (u.type t).key ∈ u.bodies := by
  refine Finset.mem_union_left _ (Finset.mem_image.2 ⟨t, ?_, rfl⟩)
  exact Finset.mem_range.2 (lt_size_of_shape_ne h)

/-- Outside a unit there is but the empty cursor. -/
theorem declaration_mem_bodies (c : CursorId) : .declaration (u.cursor c).key ∈ u.bodies := by
  refine Finset.mem_union_right _ (Finset.mem_image.2 ⟨min c u.cursors.size, ?_, ?_⟩)
  · exact Finset.mem_range.2 (Nat.lt_succ_of_le (min_le_right _ _))
  · rcases le_total c u.cursors.size with hle | hge
    · rw [min_eq_left hle]
    · rw [min_eq_right hge, cursor, cursor, Array.getD_eq_getD_getElem?,
        Array.getD_eq_getD_getElem?, Array.getElem?_eq_none le_rfl, Array.getElem?_eq_none hge]

theorem left_empty_le : u.left ∅ ≤ u.types.size + (u.cursors.size + 1) := by
  rw [left, Finset.sdiff_empty, bodies]
  refine (Finset.card_union_le _ _).trans (add_le_add ?_ ?_)
  · exact Finset.card_image_le.trans (Finset.card_range _).le
  · exact Finset.card_image_le.trans (Finset.card_range _).le

theorem left_anti {E E' : Finset Body} (h : E ⊆ E') : u.left E' ≤ u.left E :=
  Finset.card_le_card (Finset.sdiff_subset_sdiff subset_rfl h)

theorem left_insert_lt {b : Body} {E : Finset Body} (hb : b ∈ u.bodies) (hE : b ∉ E) :
    u.left (insert b E) < u.left E := by
  refine Finset.card_lt_card ⟨Finset.sdiff_subset_sdiff subset_rfl (Finset.subset_insert b E), ?_⟩
  intro hsub
  exact (Finset.mem_sdiff.1 (hsub (Finset.mem_sdiff.2 ⟨hb, hE⟩))).2 (Finset.mem_insert_self b E)

variable (u)

/-- How deep the demands for bodies lead where some are left: behind each body there may be a
member, its field, the type of the field and the longer names of that. -/
def reach (m : Nat) : Nat := (u.types.size + 4) * m

variable {u}

theorem reach_succ (m : Nat) : u.reach m + u.types.size + 4 = u.reach (m + 1) := by
  rw [reach, reach]
  ring

theorem reach_mono {m m' : Nat} (h : m ≤ m') : u.reach m ≤ u.reach m' := Nat.mul_le_mul_left _ h

end TranslationUnit

/-! ### Demands -/

namespace Demand

variable (u : TranslationUnit) {α : Type}

/-- A demand as conversions make it: the new node is one of a type of the unit, and the cursor of a
declaration is met as one. -/
def IsProper : Demand α → Prop
  | .newType t fresh => ∃ id, u.type id = t ∧ t.blank? = some fresh
  | .record c _ => u.Declares c .record
  | .enum c _ => u.Declares c .enum
  | .typedef c _ => u.Declares c .typedef
  | .type _ | .member _ _ | .field _ _ => True

/-- How many demands there may be in front of the next body. -/
def rank : Demand α → Nat
  | .newType _ _ | .record _ _ | .enum _ _ | .typedef _ _ => 0
  | .type _ => u.types.size + 1
  | .field _ _ => u.types.size + 2
  | .member _ _ => u.types.size + 3

theorem rank_le (q : Demand α) : q.rank u ≤ u.types.size + 3 := by
  cases q <;> simp [rank]

/-- A proper demand of at most a rank. -/
def IsBelow (k : Nat) (q : Demand α) : Prop := q.IsProper u ∧ q.rank u ≤ k

end Demand

/-! ### Recipes that come to an end -/

section

variable {s : ConversionSetting} {α β : Type} {d d' : Nat} {P : Recipe α} {σ : Conversion}
  {E : Finset Body} {x : Convert β} {f : β → Recipe α}

/-- The recipe comes to an end within a depth.  On the way it enters nothing that has been entered
and nothing twice, and what it has entered is remembered. -/
def Halts (s : ConversionSetting) (d : Nat) (P : Recipe α) (σ : Conversion) (E : Finset Body) :
    Prop :=
  ∃ bodies r, Comes s d P σ bodies r ∧ bodies.Nodup ∧ (∀ b ∈ bodies, b ∉ E) ∧
    ∀ a σ', r = .ok (a, σ') → Remembers s.unit σ' (E ∪ bodies.toFinset)

namespace Halts

theorem mono (h : Halts s d P σ E) (hd : d ≤ d') : Halts s d' P σ E := by
  obtain ⟨bodies, r, hcomes, h⟩ := h
  exact ⟨bodies, r, hcomes.mono hd, h⟩

theorem pure (h : Remembers s.unit σ E) (a : α) : Halts s d (pure a) σ E := by
  refine ⟨[], _, .done, List.nodup_nil, by simp, fun a' σ' heq => ?_⟩
  obtain ⟨rfl, rfl⟩ := Prod.mk.inj (Except.ok.inj heq)
  simpa using h

theorem step_bind (h : ∀ b σ₁, x.run σ = .ok (b, σ₁) → Halts s d (f b) σ₁ E) :
    Halts s d (Recipe.step x >>= f) σ E := by
  cases hrun : x.run σ with
  | error e => exact ⟨[], _, .ownFails hrun, List.nodup_nil, by simp, by simp⟩
  | ok result =>
    obtain ⟨bodies, r, hcomes, h⟩ := h result.1 result.2 hrun
    exact ⟨bodies, r, .own hrun hcomes, h⟩

theorem reads_bind {v : β} (hx : Reads x v) (h : Halts s d (f v) σ E) :
    Halts s d (Recipe.step x >>= f) σ E := by
  refine step_bind fun b σ₁ hrun => ?_
  obtain ⟨rfl, rfl⟩ := hx _ _ _ hrun
  exact h

theorem quiet_bind (hx : Quiet x) (hσ : Remembers s.unit σ E)
    (h : ∀ b σ₁, x.run σ = .ok (b, σ₁) → SameMemory σ σ₁ → Remembers s.unit σ₁ E →
      Halts s d (f b) σ₁ E) : Halts s d (Recipe.step x >>= f) σ E :=
  step_bind fun b σ₁ hrun => h b σ₁ hrun (hx _ _ _ hrun) (hσ.sameMemory (hx _ _ _ hrun))

theorem mark_bind {b : Body} {f : Unit → Recipe α} (hb : b ∉ E)
    (h : Halts s d (f ()) σ (insert b E)) : Halts s d (Recipe.mark b >>= f) σ E := by
  obtain ⟨bodies, r, hcomes, hnodup, hnew, hremembers⟩ := h
  refine ⟨b :: bodies, r, .enter hcomes, List.nodup_cons.2 ⟨fun hmem => ?_, hnodup⟩, ?_, ?_⟩
  · exact hnew b hmem (Finset.mem_insert_self b E)
  · rintro b' (_ | ⟨_, hmem⟩)
    · exact hb
    · exact fun hE => hnew b' hmem (Finset.mem_insert_of_mem hE)
  · intro a σ' heq
    rw [List.toFinset_cons, Finset.union_insert, ← Finset.insert_union]
    exact hremembers a σ' heq

theorem call_bind {q : Demand β} (h : Halts s d (q.recipe s) σ E)
    (hf : ∀ b σ₁ E₁, E ⊆ E₁ → Remembers s.unit σ₁ E₁ → Halts s (d + 1) (f b) σ₁ E₁) :
    Halts s (d + 1) (Recipe.call q >>= f) σ E := by
  obtain ⟨bodies, r, hcomes, hnodup, hnew, hremembers⟩ := h
  cases r with
  | error e => exact ⟨bodies, _, .askFails hcomes, hnodup, hnew, by simp⟩
  | ok result =>
    obtain ⟨bodies', r, hcomes', hnodup', hnew', hremembers'⟩ :=
      hf result.1 result.2 _ Finset.subset_union_left (hremembers _ _ rfl)
    -- What follows enters nothing that the demand has entered.
    refine ⟨bodies ++ bodies', r, .ask hcomes hcomes', ?_, ?_, ?_⟩
    · refine List.nodup_append.2 ⟨hnodup, hnodup', ?_⟩
      rintro b hb b' hb' rfl
      exact hnew' b hb' (Finset.mem_union_right _ (List.mem_toFinset.2 hb))
    · intro b hb
      rcases List.mem_append.1 hb with hb | hb
      · exact hnew b hb
      · exact fun hE => hnew' b hb (Finset.mem_union_left _ hE)
    · rw [List.toFinset_append, ← Finset.union_assoc]
      exact hremembers'

end Halts

/-! ### Demands that come to an end -/

/-- Demands of at most a rank come to an end where no more than some bodies are left. -/
def Safe (s : ConversionSetting) (m k d : Nat) : Prop :=
  ∀ (β : Type) (q : Demand β), q.IsBelow s.unit k → ∀ σ E, Remembers s.unit σ E →
    s.unit.left E ≤ m → Halts s d (q.recipe s) σ E

variable {m k : Nat}

/-- A recipe that publishes nothing itself comes to an end if what it asks for does. -/
theorem Safe.calm (hsafe : Safe s m k d) (hP : P.Calm (Demand.IsBelow s.unit k))
    (hσ : Remembers s.unit σ E) (hm : s.unit.left E ≤ m) : Halts s (d + 1) P σ E := by
  -- No step leaves more bodies than were left before it, so one bound serves the whole recipe.
  induction P generalizing σ E with
  | done a => exact .pure hσ a
  | own x next ih =>
    exact Halts.quiet_bind hP.1 hσ fun b σ₁ hrun _ hσ₁ => ih b (hP.2 b σ σ₁ hrun) hσ₁ hm
  | enter b next => exact hP.elim
  | ask q next ih =>
    exact Halts.call_bind (hsafe _ q hP.1 σ E hσ hm) fun b _ _ hE hσ₁ =>
      ih b (hP.2 b) hσ₁ ((TranslationUnit.left_anti hE).trans hm)

end

/-! ### What is asked for in a body -/

section

open DeclGraph.Convert

variable {s : ConversionSetting} {k : Nat}

theorem Recipe.Calm.type (hk : s.unit.types.size + 1 ≤ k) (t? : Option TypeId) :
    (Recipe.call (.type t?)).Calm (Demand.IsBelow s.unit k) := .call ⟨trivial, hk⟩

theorem Recipe.calm_ofComponents (hk : s.unit.types.size + 1 ≤ k) (t : CType) (id : NodeId) :
    (Recipe.ofComponents t id).Calm (Demand.IsBelow s.unit k) := by
  have set {name : String} (h : name ≠ "is_definition") (v : Value) :
      (Recipe.step (setField id name v)).Calm (Demand.IsBelow s.unit k) := .step (.setField id h v)
  unfold Recipe.ofComponents
  cases t.kind.shape with
  | pointer | array => exact (Recipe.Calm.type hk _).bind fun _ => set (by simp) _
  | function prototyped =>
    refine (Recipe.Calm.type hk _).bind fun _ => (set (by simp) _).bind fun _ =>
      .ite (fun _ => ?_) fun _ => .pure _
    refine (set (by simp) _).bind fun _ => .bind (.mapM (fun _ => ?_) _) fun _ => set (by simp) _
    exact (Recipe.Calm.type hk _).bind fun _ => .step (.add _)
  | invalid | elaborated | record | enum | typedef | primitive | unexposed => exact .pure _

/-! ### Bodies -/

variable {m : Nat} (hsafe : ∀ m' < m, Safe s m' (s.unit.types.size + 3)
  (s.unit.reach m' + s.unit.types.size + 3))

include hsafe

/-- What follows when a body has been entered. -/
theorem Halts.body {α : Type} {P : Recipe α} {σ : Conversion} {E : Finset Body} {b : Body}
    (hP : P.Calm (Demand.IsBelow s.unit (s.unit.types.size + 3))) (hb : b ∈ s.unit.bodies)
    (hE : b ∉ E) (hm : s.unit.left E ≤ m) (hσ : Remembers s.unit σ (insert b E)) :
    Halts s (s.unit.reach m) P σ (insert b E) := by
  have hlt := (TranslationUnit.left_insert_lt hb hE).trans_le hm
  -- All that lies between this body and the next ones fits below the bound for one body more.
  refine ((hsafe _ hlt).calm hP hσ le_rfl).mono ?_
  exact (TranslationUnit.reach_succ _).trans_le (TranslationUnit.reach_mono hlt)

variable {σ : Conversion} {E : Finset Body} (hσ : Remembers s.unit σ E)
  (hm : s.unit.left E ≤ m)

include hσ hm

theorem Halts.newType {t : CType} {fresh : Node}
    (hq : (Demand.newType t fresh).IsProper s.unit) :
    Halts s (s.unit.reach m) (Recipe.ofNewType t fresh) σ E := by
  obtain ⟨id, rfl, hfresh⟩ := hq
  have hshape : (s.unit.type id).kind.shape ≠ .invalid := fun heq => by
    simp [CType.blank?, heq] at hfresh
  unfold Recipe.ofNewType
  refine .reads_bind (.check _) (.step_bind fun found σ₁ hrun => ?_)
  obtain ⟨rfl, rfl⟩ := Prod.mk.inj (Except.ok.inj hrun)
  cases hfound : Entries.get? (s.unit.type id).key σ.types with
  | some id => exact .pure hσ _
  | none =>
    have hE := hσ.notMem_of_type hfound
    refine .step_bind fun new σ₁ hrun => .mark_bind hE ?_
    obtain ⟨rfl, rfl⟩ := Prod.mk.inj (Except.ok.inj hrun)
    refine .body hsafe ?_ (TranslationUnit.type_mem_bodies hshape) hE hm (hσ.enter_type _ _)
    exact (Recipe.calm_ofComponents (by omega) _ _).bind fun _ => .pure _

variable (hkeys : s.unit.KeysTellKinds) {c : CursorId}

/-- A record that has a node is filled once. -/
theorem Halts.recordBody {id : NodeId}
    (hid : Entries.get? (s.unit.cursor c).key σ.declarations = some id)
    (hkind : (σ.graph.node id).HasKind .record) :
    Halts s (s.unit.reach m) (Recipe.ofRecordBody s (s.unit.cursor c) id) σ E := by
  unfold Recipe.ofRecordBody
  refine .step_bind fun n σ₁ hrun => ?_
  obtain ⟨rfl, rfl⟩ := Prod.mk.inj (Except.ok.inj hrun)
  split_ifs with hdone
  · exact .pure hσ _
  · rw [Bool.or_eq_true, not_or, Bool.not_eq_true, Bool.not_eq_true] at hdone
    -- a record that is not filled has not been entered
    have hE := hσ.notMem_of_unfilled hid hkind.isKind hdone.2
    refine .step_bind fun _ σ₁ hrun => .mark_bind hE ?_
    obtain ⟨rfl, rfl⟩ := Prod.mk.inj (Except.ok.inj hrun)
    refine .body hsafe ?_ (TranslationUnit.declaration_mem_bodies c) hE hm
      (hσ.enter_record hid hkind)
    have set {name : String} (h : name ≠ "is_definition") (v : Value) :
        (Recipe.step (setField id name v)).Calm
          (Demand.IsBelow s.unit (s.unit.types.size + 3)) := .step (.setField id h v)
    refine .reads_bind (.sizeOf _ _) ((set (by simp) _).bind fun _ => ?_)
    refine (Recipe.Calm.step (.spanOf _)).bind fun _ => (set (by simp) _).bind fun _ => ?_
    exact (Recipe.Calm.forM (fun _ => .call ⟨trivial, le_rfl⟩) _).bind fun _ => .pure _

include hkeys

theorem Halts.record (hdeclares : s.unit.Declares c .record) (parent : Value) :
    Halts s (s.unit.reach m) (Recipe.ofRecord s c parent) σ E := by
  unfold Recipe.ofRecord
  refine .reads_bind (.keyOf _) (.step_bind fun found σ₁ hrun => ?_)
  obtain ⟨rfl, rfl⟩ := Prod.mk.inj (Except.ok.inj hrun)
  rw [hσ.filter_isKind hkeys hdeclares]
  cases hfound : Entries.get? (s.unit.cursor c).key σ.declarations with
  | some id =>
    -- It may have been declared only, or be filled already, or be about to be filled.
    refine .quiet_bind (.adopt id parent) hσ fun _ σ₁ _ hsame hσ₁ => ?_
    have hid : Entries.get? (s.unit.cursor c).key σ₁.declarations = some id :=
      hsame.declarations ▸ hfound
    exact .recordBody hsafe hσ₁ hm hid (hσ₁.hasKind hkeys hdeclares hid)
  | none =>
    refine .quiet_bind (.newRecord _ _) hσ fun id σ₁ hrun hsame hσ₁ => ?_
    refine .step_bind fun _ σ₂ hrun₂ => ?_
    obtain ⟨_, rfl⟩ := Prod.mk.inj (Except.ok.inj hrun₂)
    obtain ⟨hkind, hunfilled⟩ := GivesNode.newRecord _ _ _ _ _ hrun
    have hσ₂ := hσ₁.declare_record hdeclares hkind
      (hσ.get?_ne hsame (GivesNew.newRecord _ _ _ _ _ hrun)) (hsame.declarations ▸ hfound) rfl
      hunfilled
    exact .recordBody hsafe hσ₂ hm (Entries.get?_put_self _ _ _) hkind

/-- An enumeration or a defined type is entered when its node is new. -/
theorem Halts.declaration {k : Kind} {x : Convert NodeId} {f : NodeId → Recipe NodeId}
    {parent : Value} (hdeclares : s.unit.Declares c k) (hk : k ≠ .record) (hx : Quiet x)
    (hnew : GivesNew x) (hgives : GivesNode (·.HasKind k) x)
    (hf : ∀ id, (f id).Calm (Demand.IsBelow s.unit (s.unit.types.size + 3))) :
    Halts s (s.unit.reach m) (do
      let key ← Recipe.step (keyOf (s.unit.cursor c))
      match ← Recipe.step (declared? key k) with
      | some id =>
        Recipe.step (adopt id parent)
        return id
      | none =>
        let id ← Recipe.step x
        Recipe.step (declare key id)
        Recipe.mark (.declaration (s.unit.cursor c).key)
        f id) σ E := by
  refine .reads_bind (.keyOf _) (.step_bind fun found σ₁ hrun => ?_)
  obtain ⟨rfl, rfl⟩ := Prod.mk.inj (Except.ok.inj hrun)
  rw [hσ.filter_isKind hkeys hdeclares]
  cases hfound : Entries.get? (s.unit.cursor c).key σ.declarations with
  | some id => exact .quiet_bind (.adopt id parent) hσ fun _ _ _ _ hσ₁ => .pure hσ₁ _
  | none =>
    have hE := hσ.notMem_of_none hfound
    refine .quiet_bind hx hσ fun id σ₁ hrun hsame hσ₁ => .step_bind fun _ σ₂ hrun₂ =>
      .mark_bind hE ?_
    obtain ⟨_, rfl⟩ := Prod.mk.inj (Except.ok.inj hrun₂)
    -- with its key the declaration counts as entered, before its body is converted
    have hσ₂ := hσ₁.enter_declaration hdeclares (hgives _ _ _ hrun)
      (hσ.get?_ne hsame (hnew _ _ _ hrun)) hk
    exact .body hsafe (hf id) (TranslationUnit.declaration_mem_bodies c) hE hm hσ₂

theorem Halts.enum (hdeclares : s.unit.Declares c .enum) (parent : Value) :
    Halts s (s.unit.reach m) (Recipe.ofEnum s c parent) σ E := by
  refine .declaration hsafe hσ hm hkeys hdeclares (by simp) (.newEnum _ _) (.newEnum _ _)
    (.newEnum _ _) fun id => ?_
  have set {name : String} (h : name ≠ "is_definition") (v : Value) : Quiet (setField id name v) :=
    .setField id h v
  refine (Recipe.Calm.type (by omega) _).bind fun _ => ?_
  refine (Recipe.Calm.step (set (by simp) _)).bind fun _ => ?_
  exact (Recipe.Calm.step (.forM (.addItem (set (by simp))) _)).bind fun _ => .pure _

theorem Halts.typedef (hdeclares : s.unit.Declares c .typedef) (parent : Value) :
    Halts s (s.unit.reach m) (Recipe.ofTypedef s c parent) σ E := by
  refine .declaration hsafe hσ hm hkeys hdeclares (by simp) (.newTypedef _ _) (.newTypedef _ _)
    (.newTypedef _ _) fun id => ?_
  refine (Recipe.Calm.type (by omega) _).bind fun _ => ?_
  exact (Recipe.Calm.step (.setField id (by simp) _)).bind fun _ => .pure _

omit hσ hm in
/-- Demands that come first to a body. -/
theorem Safe.bodies : Safe s m 0 (s.unit.reach m) := by
  intro β q ⟨hproper, hrank⟩ σ E hσ hm
  cases q with
  | newType t fresh => exact .newType hsafe hσ hm hproper
  | record c parent => exact .record hsafe hσ hm hkeys hproper parent
  | enum c parent => exact .enum hsafe hσ hm hkeys hproper parent
  | typedef c parent => exact .typedef hsafe hσ hm hkeys hproper parent
  | type | field | member => exact absurd hrank (by simp [Demand.rank])

end

/-! ### Demands between bodies -/

section

open DeclGraph.Convert

variable {s : ConversionSetting} {m d : Nat}

/-- A type lies behind its longer names. -/
theorem Halts.type (hbodies : Safe s m 0 d) {n : Nat} {t? : Option TypeId}
    (hn : s.unit.Unfolds n t?) {σ : Conversion} {E : Finset Body} (hσ : Remembers s.unit σ E)
    (hm : s.unit.left E ≤ m) : Halts s (d + 1 + n) (Recipe.ofType s t?) σ E := by
  -- on the number of longer names; each costs one call
  induction hn with
  | nothing => exact .pure hσ _
  | elaborated heq hn ih =>
    unfold Recipe.ofType
    refine .reads_bind (.check _) ?_
    simp only [heq]
    rw [← bind_pure (Recipe.call _)]
    exact .call_bind ih fun v _ _ _ hσ₁ => .pure hσ₁ v
  | @named t hne =>
    refine hbodies.calm ?_ hσ hm
    have answer {q : Demand NodeId} (hq : q.IsBelow s.unit 0) :
        (do return Value.node (← Recipe.call q)).Calm (Demand.IsBelow s.unit 0) :=
      (Recipe.Calm.call hq).bind fun _ => .pure _
    have declares {k : Kind} (h : (s.unit.type t).kind.shape.declares? = some k) :
        s.unit.Declares (s.unit.type t).declaration k := .type h
    unfold Recipe.ofType
    refine .reads_bind (.check _) ?_
    cases hshape : (s.unit.type t).kind.shape with
    | elaborated => exact absurd hshape hne
    | record => exact answer ⟨declares (by rw [hshape]; rfl), le_rfl⟩
    | enum => exact answer ⟨declares (by rw [hshape]; rfl), le_rfl⟩
    | typedef => exact answer ⟨declares (by rw [hshape]; rfl), le_rfl⟩
    | invalid | primitive | pointer | array | function | unexposed =>
      cases hfresh : (s.unit.type t).blank? with
      | none => exact .pure _
      | some fresh => exact .call ⟨⟨t, rfl, hfresh⟩, le_rfl⟩

theorem Recipe.calm_ofField (c : CursorId) (parent : Value) :
    (Recipe.ofField s c parent).Calm (Demand.IsBelow s.unit (s.unit.types.size + 1)) := by
  refine .reads_bind (.nameOf _) (.reads_bind (.typeOf _) ?_)
  refine (Recipe.Calm.type le_rfl _).bind fun _ => .reads_bind (.initialValue _ _) ?_
  refine (Recipe.Calm.step (.spanOf _)).bind fun _ => (Recipe.Calm.step (.add _)).bind fun id => ?_
  refine (Recipe.Calm.step (.addAttributes _ _ _)).bind fun _ => ?_
  exact (Recipe.Calm.step (.setField id (by simp) _)).bind fun _ => .pure _

theorem Recipe.calm_ofMember (id : NodeId) (child : CursorId) :
    (Recipe.ofMember s id child).Calm (Demand.IsBelow s.unit (s.unit.types.size + 2)) := by
  refine .reads_bind (.kindOf _) (.ite (fun _ => ?_) fun _ => .ite (fun hrecord => ?_) fun _ =>
    .ite (fun henum => ?_) fun _ => .ite (fun _ => ?_) fun _ => .pure _)
  · exact (Recipe.Calm.call ⟨trivial, le_rfl⟩).bind fun _ => .step (.append id (by simp) _)
  · exact (Recipe.Calm.call ⟨.cursor (if_pos hrecord), Nat.zero_le _⟩).bind fun _ =>
      .step (.appendOnce id (by simp) _)
  · exact (Recipe.Calm.call ⟨.cursor (by rw [henum]; rfl), Nat.zero_le _⟩).bind fun _ =>
      .step (.appendOnce id (by simp) _)
  · exact (Recipe.Calm.step (.addAttribute _ _)).bind fun _ => .step (.append id (by simp) _)

/-- Demands of a higher rank come to an end if they do so where those of a lower rank do. -/
theorem Safe.raise {k k' d' : Nat} (h : Safe s m k d) (hd : d ≤ d')
    (hnext : ∀ (β : Type) (q : Demand β), q.IsProper s.unit → k < q.rank s.unit →
      q.rank s.unit ≤ k' → ∀ σ E, Remembers s.unit σ E → s.unit.left E ≤ m →
      Halts s d' (q.recipe s) σ E) : Safe s m k' d' := by
  intro β q hq σ E hσ hm
  rcases le_or_gt (q.rank s.unit) k with hle | hlt
  · exact (h β q ⟨hq.1, hle⟩ σ E hσ hm).mono hd
  · exact hnext β q hq.1 hlt hq.2 σ E hσ hm

/-- Types lie in front of bodies, fields in front of types and members in front of fields. -/
theorem Safe.between (hnames : s.unit.NamesEnd) (hbodies : Safe s m 0 d) :
    Safe s m (s.unit.types.size + 3) (d + s.unit.types.size + 3) := by
  have types : Safe s m (s.unit.types.size + 1) (d + s.unit.types.size + 1) := by
    refine hbodies.raise (by omega) fun β q _ hlt hle σ E hσ hm => ?_
    cases q with
    | type t? =>
      obtain ⟨n, hn⟩ := hnames t?
      exact (Halts.type hbodies hn hσ hm).mono (by have := hn.le_size; omega)
    | newType | record | enum | typedef | field | member => simp [Demand.rank] at hlt hle
  have fields : Safe s m (s.unit.types.size + 2) (d + s.unit.types.size + 2) := by
    refine types.raise (by omega) fun β q _ hlt hle σ E hσ hm => ?_
    cases q with
    | field c parent => exact types.calm (Recipe.calm_ofField c parent) hσ hm
    | newType | record | enum | typedef | type | member => simp [Demand.rank] at hlt hle
  refine fields.raise (by omega) fun β q _ hlt hle σ E hσ hm => ?_
  cases q with
  | member id child => exact fields.calm (Recipe.calm_ofMember id child) hσ hm
  | newType | record | enum | typedef | type | field => simp [Demand.rank] at hlt hle

/-- The recipe of every demand comes to an end. -/
theorem Safe.all (hkeys : s.unit.KeysTellKinds) (hnames : s.unit.NamesEnd) (m : Nat) :
    Safe s m (s.unit.types.size + 3)
      (s.unit.reach m + s.unit.types.size + 3) := by
  -- Behind each body that is entered fewer are left.
  induction m using Nat.strong_induction_on with
  | _ m ih => exact .between hnames (.bodies ih hkeys)

end

end DeclGraph
