import DeclGraph.Proofs.TranslationUnit.Outcome

/-!
# Types that are written alike

Two references denote the same type if, longer names left out, both are nothing, both are the same
declaration, or both are of one form and their components denote the same types: `SameType`, the
largest relation with this property.  References to the same type become the same node.  The converse
holds where types of one kind that are written alike are the same: `SharedTypes`,
`types_of_compilation`.  Two declarations may share their spelling, though, and then so do the
pointers to them (`pointees_shadowing`).
-/

namespace DeclGraph

open Account

/-! ### The same type -/

/-- What is known of a type apart from the types it is made of. -/
def CType.form (t : CType) : TypeKind × String × Int × Int × Bool :=
  (t.kind, t.spelling, t.size, t.elementCount, t.isVariadic)

theorem CType.key_of_form {t t' : CType} (h : t.form = t'.form) : t.key = t'.key := by
  simp only [form, Prod.mk.injEq] at h
  rw [key, key, h.1, h.2.1]

namespace TranslationUnit

variable (u : TranslationUnit)

/-- What a reference leads to once longer names are left out. -/
inductive Resolves : Option TypeId → Option TypeId → Prop
  | nothing : Resolves none none
  | invalid {t : TypeId} (h : (u.type t).kind.shape = .invalid) : Resolves (some t) none
  | elaborated {t : TypeId} {r : Option TypeId} (h : (u.type t).kind.shape = .elaborated)
      (hr : Resolves (u.type t).namedType? r) : Resolves (some t) r
  | declared {t : TypeId} {k : Kind} (h : (u.type t).kind.shape.declares? = some k) :
      Resolves (some t) (some t)
  | structural {t : TypeId} (h : (u.type t).kind.shape.isStructural) : Resolves (some t) (some t)

/-- Two references denote the same type if `R` tells so of their components. -/
inductive Alike (R : Option TypeId → Option TypeId → Prop) : Option TypeId → Option TypeId → Prop
  | nothing {a b : Option TypeId} (ha : u.Resolves a none) (hb : u.Resolves b none) : Alike R a b
  | declared {a b : Option TypeId} {t t' : TypeId} {k : Kind} (ha : u.Resolves a (some t))
      (hb : u.Resolves b (some t')) (hk : (u.type t).kind.shape.declares? = some k)
      (hk' : (u.type t').kind.shape.declares? = some k)
      (hkey : (u.cursor (u.type t).declaration).key = (u.cursor (u.type t').declaration).key) :
      Alike R a b
  | structural {a b : Option TypeId} {t t' : TypeId} (ha : u.Resolves a (some t))
      (hb : u.Resolves b (some t')) (hs : (u.type t).kind.shape.isStructural)
      (hform : (u.type t).form = (u.type t').form)
      (h : List.Forall₂ R (u.type t).components (u.type t').components) : Alike R a b

/-- Two references denote the same type. -/
def SameType (a b : Option TypeId) : Prop :=
  ∃ R : Option TypeId → Option TypeId → Prop, (∀ a b, R a b → u.Alike R a b) ∧ R a b

variable {u} {a b r r' : Option TypeId}

theorem Resolves.unique (h : u.Resolves a r) (h' : u.Resolves a r') : r = r' := by
  induction h with
  | nothing =>
    cases h'
    rfl
  | invalid h =>
    cases h' with
    | invalid => rfl
    | elaborated h₁ => exact absurd (h.symm.trans h₁) (by simp)
    | declared h₁ => simp [h, TypeShape.declares?] at h₁
    | structural h₁ => simp [h, TypeShape.isStructural] at h₁
  | elaborated h _ ih =>
    cases h' with
    | invalid h₁ => exact absurd (h.symm.trans h₁) (by simp)
    | elaborated _ hr => exact ih hr
    | declared h₁ => simp [h, TypeShape.declares?] at h₁
    | structural h₁ => simp [h, TypeShape.isStructural] at h₁
  | declared h =>
    cases h' with
    | invalid h₁ | elaborated h₁ => simp [h₁, TypeShape.declares?] at h
    | declared | structural => rfl
  | structural h =>
    cases h' with
    | invalid h₁ | elaborated h₁ => simp [h₁, TypeShape.isStructural] at h
    | declared | structural => rfl

/-- What a reference leads to is no longer name. -/
theorem Resolves.self {t : TypeId} (h : u.Resolves a (some t)) : u.Resolves (some t) (some t) := by
  generalize hr : some t = r at h ⊢
  induction h with
  | nothing | invalid => cases hr
  | elaborated _ _ ih => exact ih hr
  | declared h => exact .declared h
  | structural h => exact .structural h

theorem Alike.imp {R R' : Option TypeId → Option TypeId → Prop} (hR : ∀ a b, R a b → R' a b)
    (h : u.Alike R a b) : u.Alike R' a b := by
  cases h with
  | nothing ha hb => exact .nothing ha hb
  | declared ha hb hk hk' hkey => exact .declared ha hb hk hk' hkey
  | structural ha hb hs hform h => exact .structural ha hb hs hform (h.imp hR)

theorem SameType.alike (h : u.SameType a b) : u.Alike u.SameType a b := by
  obtain ⟨R, hR, hab⟩ := h
  exact (hR a b hab).imp fun a b hab => ⟨R, hR, hab⟩

/-- What is alike up to the same types is the same type. -/
theorem Alike.sameType (h : u.Alike u.SameType a b) : u.SameType a b := by
  refine ⟨fun x y => u.SameType x y ∨ (x = a ∧ y = b), fun x y hxy => ?_, .inr ⟨rfl, rfl⟩⟩
  rcases hxy with hxy | ⟨rfl, rfl⟩
  · exact hxy.alike.imp fun _ _ => .inl
  · exact h.imp fun _ _ => .inl

theorem SameType.symm (h : u.SameType a b) : u.SameType b a := by
  refine ⟨fun x y => u.SameType y x, fun x y hxy => ?_, h⟩
  cases hxy.alike with
  | nothing ha hb => exact .nothing hb ha
  | declared ha hb hk hk' hkey => exact .declared hb ha hk' hk hkey.symm
  | structural ha hb hs hform h =>
    refine .structural hb ha ?_ hform.symm h.flip
    rwa [← (Prod.mk.inj hform).1]

/-- References denote the same type if what they lead to does. -/
theorem SameType.of_resolves {t t' : TypeId} (h : u.SameType (some t) (some t'))
    (ha : u.Resolves a (some t)) (hb : u.Resolves b (some t')) : u.SameType a b := by
  refine Alike.sameType ?_
  cases h.alike with
  | nothing h _ => exact absurd (ha.self.unique h) (by simp)
  | declared h h' hk hk' hkey =>
    obtain rfl := Option.some.inj (ha.self.unique h)
    obtain rfl := Option.some.inj (hb.self.unique h')
    exact .declared ha hb hk hk' hkey
  | structural h h' hs hform hcomponents =>
    obtain rfl := Option.some.inj (ha.self.unique h)
    obtain rfl := Option.some.inj (hb.self.unique h')
    exact .structural ha hb hs hform hcomponents

/-- Types that are the same are of one form and have the same components. -/
theorem SameType.components {t t' : TypeId} (h : u.SameType (some t) (some t'))
    (hs : (u.type t).kind.shape.isStructural) (hs' : (u.type t').kind.shape.isStructural) :
    (u.type t).form = (u.type t').form ∧
      List.Forall₂ u.SameType (u.type t).components (u.type t').components := by
  cases h.alike with
  | nothing h _ => exact absurd ((Resolves.structural hs).unique h) (by simp)
  | declared h _ hk _ _ =>
    obtain rfl := Option.some.inj ((Resolves.structural hs).unique h)
    simp [TypeShape.isStructural_of_declares? hk] at hs
  | structural h h' _ hform hcomponents =>
    obtain rfl := Option.some.inj ((Resolves.structural hs).unique h)
    obtain rfl := Option.some.inj ((Resolves.structural hs').unique h')
    exact ⟨hform, hcomponents⟩

end TranslationUnit

/-! ### What types have become -/

section

variable (s : ConversionSetting) (p : Account)

/-- What a reference to a type has become. -/
inductive Became : Option TypeId → Value → Prop
  | nothing {a : Option TypeId} (h : s.unit.Resolves a none) : Became a .null
  | declared {a : Option TypeId} {t : TypeId} {k : Kind} {id : NodeId}
      (h : s.unit.Resolves a (some t)) (hk : (s.unit.type t).kind.shape.declares? = some k)
      (hid : Entries.get? (s.unit.cursor (s.unit.type t).declaration).key p.declarations = some id) :
      Became a (.node id)
  | structural {a : Option TypeId} {t : TypeId} {id : NodeId} (h : s.unit.Resolves a (some t))
      (hs : (s.unit.type t).kind.shape.isStructural)
      (hid : Entries.get? (s.unit.type t).key p.types = some id) : Became a (.node id)

/-- The node of a parameter that a type tells of. -/
def IsArgument (id : NodeId) (a : TypeId) : Prop :=
  ∃ type, p.Shows id (.make .parameter [("name", .text ""), ("type", type)]) ∧
    Became s p (some a) type

/-- The node mirrors the type: it shows what is known of it and what its own components have
become. -/
def MirrorsType (t : TypeId) (id : NodeId) : Prop :=
  ShowsType p (Became s p) (IsArgument s p) (s.unit.type t) id

/-- All types of one kind that were reached and are written like a type are the same. -/
def Unambiguous (t : TypeId) : Prop :=
  ∀ t', Reached s p (.type (some t')) → (s.unit.type t').kind.shape.isStructural →
    (s.unit.type t').key = (s.unit.type t).key → s.unit.SameType (some t) (some t')

/-- Types are shared, as far as they can be told apart. -/
structure SharedTypes : Prop where
  /-- What was reached has become something. -/
  found : ∀ a, Reached s p (.type a) → ∃ v, Became s p a v
  /-- It has become one thing only. -/
  unique : ∀ a v w, Became s p a v → Became s p a w → v = w
  /-- References to the same type have become the same. -/
  same : ∀ a b v, s.unit.SameType a b → Became s p a v → Became s p b v
  /-- What has become the same is the same type, if no other type is written like it. -/
  apart : ∀ a b v, Reached s p (.type a) → Reached s p (.type b) → Became s p a v →
    Became s p b v → (∀ t, s.unit.Resolves a (some t) → Unambiguous s p t) → s.unit.SameType a b
  /-- The node of a type mirrors a type of its kind that is written like it. -/
  sampled : ∀ k ∈ Kind.structural, ∀ id, (p.graph.node id).isKind k →
    ∃ t, Reached s p (.type (some t)) ∧ Became s p (some t) (.node id) ∧ MirrorsType s p t id
  /-- It mirrors the type itself if no other type is written like it. -/
  mirrored : ∀ t id, (s.unit.type t).kind.shape.isStructural → Became s p (some t) (.node id) →
    Unambiguous s p t → MirrorsType s p t id

end

variable {s : ConversionSetting} {p : Account} {a b : Option TypeId} {v w : Value} {id : NodeId}

namespace Became

theorem of_nothing (ha : s.unit.Resolves a none) (h : Became s p a v) : v = .null := by
  cases h with
  | nothing => rfl
  | declared h | structural h => exact absurd (ha.unique h) (by simp)

theorem resolves (h : Became s p a .null) : s.unit.Resolves a none := by
  generalize hv : Value.null = v at h
  cases h with
  | nothing ha => exact ha
  | declared | structural => exact absurd hv (by simp [Value.null])

theorem of_declared {t : TypeId} {k : Kind} (ha : s.unit.Resolves a (some t))
    (hk : (s.unit.type t).kind.shape.declares? = some k) (h : Became s p a v) : ∃ id, v = .node id ∧
      Entries.get? (s.unit.cursor (s.unit.type t).declaration).key p.declarations = some id := by
  cases h with
  | nothing h => exact absurd (ha.unique h) (by simp)
  | declared h _ hid =>
    obtain rfl := Option.some.inj (ha.unique h)
    exact ⟨_, rfl, hid⟩
  | structural h hs =>
    obtain rfl := Option.some.inj (ha.unique h)
    simp [TypeShape.isStructural_of_declares? hk] at hs

theorem of_structural {t : TypeId} (ha : s.unit.Resolves a (some t))
    (hs : (s.unit.type t).kind.shape.isStructural) (h : Became s p a v) :
    ∃ id, v = .node id ∧ Entries.get? (s.unit.type t).key p.types = some id := by
  cases h with
  | nothing h => exact absurd (ha.unique h) (by simp)
  | declared h hk =>
    obtain rfl := Option.some.inj (ha.unique h)
    simp [TypeShape.isStructural_of_declares? hk] at hs
  | structural h _ hid =>
    obtain rfl := Option.some.inj (ha.unique h)
    exact ⟨_, rfl, hid⟩

theorem unique (h : Became s p a v) (h' : Became s p a w) : v = w := by
  cases h with
  | nothing ha => exact (h'.of_nothing ha).symm
  | declared ha hk hid =>
    obtain ⟨id', rfl, hid'⟩ := h'.of_declared ha hk
    rw [Option.some.inj (hid.symm.trans hid')]
  | structural ha hs hid =>
    obtain ⟨id', rfl, hid'⟩ := h'.of_structural ha hs
    rw [Option.some.inj (hid.symm.trans hid')]

/-- References to the same type have become the same. -/
theorem of_sameType (hab : s.unit.SameType a b) (h : Became s p a v) : Became s p b v := by
  cases hab.alike with
  | nothing ha hb => exact h.of_nothing ha ▸ .nothing hb
  | declared ha hb hk hk' hkey =>
    obtain ⟨id, rfl, hid⟩ := h.of_declared ha hk
    exact .declared hb hk' (hkey ▸ hid)
  | structural ha hb hs hform _ =>
    obtain ⟨id, rfl, hid⟩ := h.of_structural ha hs
    refine .structural hb ((Prod.mk.inj hform).1 ▸ hs) ?_
    rw [← CType.key_of_form hform]
    exact hid

end Became

/-- What stands for a type is what it has become. -/
theorem Stands.became (h : Stands s p a v) : Became s p a v := by
  induction h with
  | nothing => exact .nothing .nothing
  | invalid h => exact .nothing (.invalid h)
  | declared hk hid => exact .declared (.declared hk) hk hid.1
  | structural hs hid => exact .structural (.structural hs) hs hid
  | elaborated h _ ih =>
    cases ih with
    | nothing hr => exact .nothing (.elaborated h hr)
    | declared hr hk hid => exact .declared (.elaborated h hr) hk hid
    | structural hr hs hid => exact .structural (.elaborated h hr) hs hid

/-! ### Nodes of types -/

/-- Three lists that are related one by one. -/
theorem forall₂_comp {α β γ : Type} {P : α → β → Prop} {Q : β → γ → Prop} {P' : α → γ → Prop}
    {as : List α} {bs : List β} {cs : List γ} (hP : ∀ a b c, P a b → Q b c → P' a c)
    (h : List.Forall₂ P as bs) (h' : List.Forall₂ Q bs cs) : List.Forall₂ P' as cs := by
  induction h generalizing cs with
  | nil =>
    cases h'
    exact .nil
  | cons hab _ ih =>
    cases h' with
    | cons hbc h' => exact .cons (hP _ _ _ hab hbc) (ih h')

/-- A type of the same form with the same components is shown by the same node. -/
theorem ShowsType.congr {S : Option TypeId → Option TypeId → Prop}
    {R R' : Option TypeId → Value → Prop} {P P' : NodeId → TypeId → Prop} {t t' : CType}
    (hform : t.form = t'.form) (hcomponents : List.Forall₂ S t.components t'.components)
    (hR : ∀ a b v, S a b → R a v → R' b v)
    (hP : ∀ id a b, S (some a) (some b) → P id a → P' id b) (h : ShowsType p R P t id) :
    ShowsType p R' P' t' id := by
  simp only [CType.form, Prod.mk.injEq] at hform
  obtain ⟨hkind, hspelling, hsize, hcount, hvariadic⟩ := hform
  unfold CType.components at hcomponents
  unfold ShowsType at h ⊢
  -- the forms agree, so the same case applies to both
  rw [← hkind] at hcomponents ⊢
  simp only [← hspelling, ← hsize, ← hcount, ← hvariadic]
  cases hshape : t.kind.shape with
  | invalid | elaborated | record | enum | typedef => simp [hshape] at h
  | primitive | unexposed => simpa only [hshape] using h
  | pointer | array =>
    simp only [hshape] at h hcomponents ⊢
    obtain ⟨element, hshows, helement⟩ := h
    obtain ⟨hsame, _⟩ := List.forall₂_cons.1 hcomponents
    exact ⟨element, hshows, hR _ _ _ hsame helement⟩
  | function prototyped =>
    cases prototyped with
    | false =>
      simp only [hshape] at h hcomponents ⊢
      obtain ⟨result, hshows, hresult⟩ := h
      obtain ⟨hsame, _⟩ := List.forall₂_cons.1 hcomponents
      exact ⟨result, hshows, hR _ _ _ hsame hresult⟩
    | true =>
      simp only [hshape, if_true] at h hcomponents ⊢
      obtain ⟨result, parameters, hshows, hresult, hparameters⟩ := h
      obtain ⟨hsame, harguments⟩ := List.forall₂_cons.1 hcomponents
      rw [List.forall₂_map_left_iff, List.forall₂_map_right_iff] at harguments
      exact ⟨result, parameters, hshows, hR _ _ _ hsame hresult,
        forall₂_comp (fun id a b hid hab => hP id a b hab hid) hparameters harguments⟩

theorem TranslationUnit.Resolves.reached {t : TypeId} (h : s.unit.Resolves a (some t))
    (ha : Reached s p (.type a)) : Reached s p (.type (some t)) := by
  generalize hr : some t = r at h
  induction h with
  | nothing | invalid => cases hr
  | elaborated h _ ih => exact ih (ha.named h) hr
  | declared | structural => exact hr ▸ ha

namespace Explains

variable {source : String} {c : Compilation} (h : Explains s source c p)

include h

/-- A node that was made from a type mirrors it. -/
theorem mirrorsType {t : TypeId} (hmade : p.made id = some (.type t)) : MirrorsType s p t id := by
  have hm := h.mirrors _ _ hmade
  refine ShowsType.congr (S := Eq) rfl (List.forall₂_refl _) ?_ ?_ hm
  · rintro a _ v rfl hv
    exact hv.became
  · intro id' b b' hb hid'
    obtain ⟨type, hshows, htype⟩ := h.mirrors _ _ hid'
    exact ⟨type, hshows, hb ▸ htype.became⟩

/-- The node of a type was made from one that was reached and is written like it. -/
theorem exists_made_type {t : TypeId} (hs : (s.unit.type t).kind.shape.isStructural)
    (ht : Became s p (some t) (.node id)) :
    ∃ t₀, p.made id = some (.type t₀) ∧ (s.unit.type t₀).key = (s.unit.type t).key ∧
      (s.unit.type t₀).kind.shape.isStructural ∧ Reached s p (.type (some t₀)) := by
  obtain ⟨id', hid', hlisted⟩ := ht.of_structural (.structural hs) hs
  obtain rfl := Value.node.inj hid'
  obtain ⟨t₀, hmade, hkey⟩ := h.types _ _ hlisted
  exact ⟨t₀, hmade, hkey, (h.typed _ _ hmade).2⟩

/-- A node was made from a declaration with the key of what became it, or from a type that is
written like it. -/
theorem exists_made_of_became (ha : Became s p a (.node id)) :
    (∃ t k c k₀, s.unit.Resolves a (some t) ∧ (s.unit.type t).kind.shape.declares? = some k ∧
      p.made id = some (.declaration c k₀) ∧
      (s.unit.cursor c).key = (s.unit.cursor (s.unit.type t).declaration).key) ∨
    ∃ t t₀, s.unit.Resolves a (some t) ∧ (s.unit.type t).kind.shape.isStructural ∧
      p.made id = some (.type t₀) ∧ (s.unit.type t₀).key = (s.unit.type t).key := by
  generalize hv : Value.node id = v at ha
  cases ha with
  | nothing => exact absurd hv (by simp [Value.null])
  | declared ha hk hid =>
    obtain rfl := Value.node.inj hv
    obtain ⟨c, k₀, hmade, hkey⟩ := h.declarations _ _ hid
    exact .inl ⟨_, _, c, k₀, ha, hk, hmade, hkey⟩
  | structural ha hs hid =>
    obtain rfl := Value.node.inj hv
    obtain ⟨t₀, hmade, hkey⟩ := h.types _ _ hid
    exact .inr ⟨_, t₀, ha, hs, hmade, hkey⟩

/-- What has become the same is the same type, if no other type is written like it. -/
theorem sameType (hkeys : s.unit.KeysTellKinds) (hb : Reached s p (.type b)) (hav : Became s p a v)
    (hbv : Became s p b v)
    (hclear : ∀ t, s.unit.Resolves a (some t) → Unambiguous s p t) : s.unit.SameType a b := by
  cases hav with
  | nothing ha => exact TranslationUnit.Alike.sameType (.nothing ha hbv.resolves)
  | declared ha hk hid =>
    obtain ⟨c, k₀, hmade, hkey⟩ := h.declarations _ _ hid
    -- a node has one origin, so both are declarations or neither is
    rcases h.exists_made_of_became hbv with ⟨t', k', c', k₀', hb', hk', hmade', hkey'⟩ |
      ⟨t', t₀, _, _, hmade', _⟩
    · obtain ⟨rfl, -⟩ := Origin.declaration.inj (Option.some.inj (hmade.symm.trans hmade'))
      have heq := hkey.symm.trans hkey'
      have hkind := hkeys _ _ _ _ (.type hk) (.type hk') heq
      exact TranslationUnit.Alike.sameType (.declared ha hb' hk (hkind ▸ hk') heq)
    · exact absurd (hmade.symm.trans hmade') (by simp)
  | structural ha hs hid =>
    obtain ⟨t₀, hmade, hkey⟩ := h.types _ _ hid
    rcases h.exists_made_of_became hbv with ⟨t', k', c', k₀', _, _, hmade', _⟩ |
      ⟨t', t₀', hb', hs', hmade', hkey'⟩
    · exact absurd (hmade.symm.trans hmade') (by simp)
    · obtain rfl := Origin.type.inj (Option.some.inj (hmade.symm.trans hmade'))
      exact (hclear _ ha _ (hb'.reached hb) hs' (hkey'.symm.trans hkey)).of_resolves ha hb'

end Explains

/-- What a unit is converted to shares its types, as far as they can be told apart. -/
theorem TranslationUnit.types_of_compilation {u : TranslationUnit} {source : String}
    {options : ParseOptions} {c : Compilation} (hkeys : u.KeysTellKinds)
    (hc : u.compilation source options = .ok c) :
    ∃ p, Explains ⟨u, options⟩ source c p ∧ SharedTypes ⟨u, options⟩ p := by
  obtain ⟨p, h⟩ := u.exists_explains hkeys hc
  refine ⟨p, h, fun a ha => ?_, fun a v w => Became.unique, fun a b v hab ha => ha.of_sameType hab,
    fun a b v _ hb hav hbv => h.sameType hkeys hb hav hbv, fun k hk id hid => ?_,
    fun t id hs ht hclear => ?_⟩
  · obtain ⟨v, hv⟩ := h.found ha
    exact ⟨v, hv.became⟩
  · obtain ⟨t, hmade⟩ := h.exists_type hk hid
    obtain ⟨hlisted, hs, hreached⟩ := h.typed _ _ hmade
    exact ⟨t, hreached, .structural (.structural hs) hs hlisted, h.mirrorsType hmade⟩
  · obtain ⟨t₀, hmade, hkey, hs₀, hreached⟩ := h.exists_made_type hs ht
    obtain ⟨hform, hcomponents⟩ := (hclear t₀ hreached hs₀ hkey).symm.components hs₀ hs
    refine ShowsType.congr hform hcomponents (fun a b v hab hv => hv.of_sameType hab) ?_
      (h.mirrorsType hmade)
    rintro id' a b hab ⟨type, hshows, htype⟩
    exact ⟨type, hshows, htype.of_sameType hab⟩

/-! ### Two records with one name -/

/-- The name of what fields lead to from a compilation; a list leads to its first item. -/
def Compilation.nameAt (c : Compilation) (path : List String) : String :=
  let follow (v : Value) (name : String) : Value :=
    match v with
    | .node id =>
      match (c.graph.node id).get name with
      | .list (item :: _) => item
      | w => w
    | _ => .null
  c.graph.plain ((path ++ ["name"]).foldl follow c.root)

/-- Two records are named `s`, one in the file with a field `a` and one in the parameters of a
function with a field `b`.  A variable points to the first, the parameter to the second. -/
def shadowing : TranslationUnit where
  cursors := #[
    { Cursor.empty 10 with
      kind := .struct, spelling := "s", location := ⟨some "s.c", 1, 8, false⟩, identity := "c:@S@s",
      children := [1], type? := some 0, isDefinition := true },
    { Cursor.empty 10 with
      kind := .field, spelling := "a", location := ⟨some "s.c", 1, 16, false⟩, type? := some 1 },
    { Cursor.empty 10 with
      kind := .var, spelling := "first", location := ⟨some "s.c", 2, 11, false⟩, type? := some 2 },
    { Cursor.empty 10 with
      kind := .function, spelling := "f", location := ⟨some "s.c", 3, 6, false⟩, arguments := [4],
      type? := some 5, resultType? := some 4 },
    { Cursor.empty 10 with
      kind := ⟨"PARM_DECL"⟩, spelling := "second", location := ⟨some "s.c", 3, 32, false⟩,
      children := [5], type? := some 6 },
    { Cursor.empty 10 with
      kind := .struct, spelling := "s", location := ⟨some "s.c", 3, 15, false⟩,
      identity := "c:s.c@40@F@f@S@s", children := [6], type? := some 8, isDefinition := true },
    { Cursor.empty 10 with
      kind := .field, spelling := "b", location := ⟨some "s.c", 3, 24, false⟩, type? := some 9 }]
  types := #[
    { CType.invalid 10 7 with kind := ⟨"RECORD"⟩, spelling := "struct s", size := 4, declaration := 0 },
    { CType.invalid 10 7 with kind := ⟨"INT"⟩, spelling := "int", size := 4 },
    { CType.invalid 10 7 with
      kind := ⟨"POINTER"⟩, spelling := "struct s *", size := 8, pointee? := some 3 },
    { CType.invalid 10 7 with
      kind := ⟨"ELABORATED"⟩, spelling := "struct s", size := 4, namedType? := some 0 },
    { CType.invalid 10 7 with kind := ⟨"VOID"⟩, spelling := "void", size := 1 },
    { CType.invalid 10 7 with
      kind := ⟨"FUNCTIONPROTO"⟩, spelling := "void (struct s *)", size := 1, result? := some 4,
      arguments := [6] },
    { CType.invalid 10 7 with
      kind := ⟨"POINTER"⟩, spelling := "struct s *", size := 8, pointee? := some 7 },
    { CType.invalid 10 7 with
      kind := ⟨"ELABORATED"⟩, spelling := "struct s", size := 1, namedType? := some 8 },
    { CType.invalid 10 7 with kind := ⟨"RECORD"⟩, spelling := "struct s", size := 1, declaration := 5 },
    { CType.invalid 10 7 with kind := ⟨"CHAR_S"⟩, spelling := "char", size := 1 }]
  top := [0, 2, 3]
  remarks := []

/-- Types that are not the same become the same: the parameter points to the record of the
variable. -/
theorem pointees_shadowing :
    ¬shadowing.SameType (some 2) (some 6) ∧
      (shadowing.compilation "s.c" default).toOption.map (fun c =>
        (c.nameAt ["fields", "type", "element_type", "fields"],
          c.nameAt ["functions", "parameters", "type", "element_type", "fields"]))
        = some ("a", "a") := by
  refine ⟨fun h => ?_, by decide +kernel⟩
  obtain ⟨_, hcomponents⟩ := h.components rfl rfl
  obtain ⟨hpointee, _⟩ := List.forall₂_cons.1 hcomponents
  -- the two names stand for two records with two keys
  have first : shadowing.Resolves (some 3) (some 0) := .elaborated rfl (.declared rfl)
  have second : shadowing.Resolves (some 7) (some 8) := .elaborated rfl (.declared rfl)
  cases hpointee.alike with
  | nothing h _ => exact absurd (first.unique h) (by simp)
  | structural h _ hs _ _ =>
    obtain rfl := Option.some.inj (first.unique h)
    exact absurd hs (by decide)
  | declared h h' _ _ hkey =>
    obtain rfl := Option.some.inj (first.unique h)
    obtain rfl := Option.some.inj (second.unique h')
    exact absurd hkey (by decide +kernel)

/-- Still, each node of a type mirrors one of the types that are written like it. -/
theorem sharedTypes_shadowing :
    shadowing.KeysTellKinds ∧ ∃ c, shadowing.compilation "s.c" default = .ok c ∧
      ∃ p, Explains ⟨shadowing, default⟩ "s.c" c p ∧ SharedTypes ⟨shadowing, default⟩ p := by
  have hkeys : shadowing.KeysTellKinds := by decide +kernel
  obtain ⟨c, hc⟩ : ∃ c, shadowing.compilation "s.c" default = .ok c :=
    exists_eq_ok_of_isOk (by decide +kernel)
  exact ⟨hkeys, c, hc, TranslationUnit.types_of_compilation hkeys hc⟩

end DeclGraph
