import DeclGraph.Proofs.TranslationUnit.Steps

/-!
# Converting types and declarations

The seven functions that convert types, records, their members, enumerations, defined types and
fields call each other, so what they do is shown for all of them at once, by induction on the fuel:
`Converts`.  A record is published before its members are converted and may be met again from there;
it is open then and counts as filled, so nobody else fills it.
-/

namespace DeclGraph

open Account

variable {s : ConversionSetting} {O : Set NodeId} {p : Account}

/-! ### The tables -/

section

variable (hkeys : s.unit.KeysTellKinds) (h : Sound s O p) {c : CursorId} {k : Kind}
  (hreached : Reached s p (.declaration c k))

include hkeys h hreached

/-- The node of a declaration was made from one with the same key, which is of the same kind. -/
theorem Sound.made_of_get? {id : NodeId}
    (hid : Entries.get? (s.unit.cursor c).key p.declarations = some id) :
    ∃ c₀, p.made id = some (.declaration c₀ k) ∧
      (s.unit.cursor c₀).key = (s.unit.cursor c).key := by
  obtain ⟨c₀, k₀, hmade, hkey⟩ := h.declarations _ _ hid
  have hk : k₀ = k :=
    hkeys _ _ _ _ (h.declared _ _ _ hmade).2.2.declares hreached.declares hkey
  exact ⟨c₀, hk ▸ hmade, hkey⟩

/-- The node of a declaration is of its kind. -/
theorem Sound.filter_isKind :
    (Entries.get? (s.unit.cursor c).key p.declarations).filter
      (fun id => (p.graph.node id).isKind k) =
        Entries.get? (s.unit.cursor c).key p.declarations := by
  cases hid : Entries.get? (s.unit.cursor c).key p.declarations with
  | none => rfl
  | some id =>
    obtain ⟨c₀, hmade, _⟩ := h.made_of_get? hkeys hreached hid
    exact Option.filter_some_pos (h.declared _ _ _ hmade).2.1

end

/-- Only records are unfilled records. -/
theorem Account.notMem_unfilled {id : NodeId} {o : Origin} (hmade : p.made id = some o)
    (ho : ∀ c, o ≠ .declaration c .record) : id ∉ ∅ ∪ p.unfilled := by
  rintro (hid | ⟨⟨c, hc⟩, _⟩)
  · exact hid
  · exact ho c (Option.some.inj (hmade.symm.trans hc))

/-- A node that was open from when it was new on is closed. -/
theorem Continues.finish {p₁ p₂ : Account} {id : NodeId} (hk : Keeps ∅ p p₁)
    (hid : p.graph.size ≤ id) (hc : Continues s (insert id O) {id} p₁ p₂)
    (hm : ∀ o, p₂.made id = some o → Mirrors s p₂ id o) : Continues s O ∅ p p₂ :=
  ⟨keeps_trans hk.step hc.keeps fun _ heq hlt =>
    absurd (Set.mem_singleton_iff.1 heq ▸ hid) (not_le.2 hlt), hc.sound.close hm⟩

/-! ### The second part of a conversion -/

namespace Convert

/-- Converts the components of a type that has a node. -/
def fillType (s : ConversionSetting) (fuel : Nat) (t : CType) (id : NodeId) : Convert Unit :=
  match t.kind.shape with
  | .pointer => do setField id "element_type" (← typeWithin s fuel t.pointee?)
  | .array _ => do setField id "element_type" (← typeWithin s fuel t.elementType?)
  | .function prototyped => do
    setField id "return_type" (← typeWithin s fuel t.result?)
    if prototyped then
      setField id "is_variadic" (.bool t.isVariadic)
      let parameters ← t.arguments.mapM fun argument => do
        let type ← typeWithin s fuel (some argument)
        add (.make .parameter [("name", .text ""), ("type", type), ("parent", .node id)])
      setField id "parameters" (.nodes parameters)
  | _ => pure ()

theorem newTypeWithin_succ (s : ConversionSetting) (fuel : Nat) (t : CType) (fresh : Node) :
    newTypeWithin s (fuel + 1) t fresh = (do
      liftM (t.readable .spelling)
      match ← converted? (t.kind, t.spelling) with
      | some id => return .node id
      | none =>
        let id ← addType (t.kind, t.spelling) fresh
        fillType s fuel t id
        return .node id) := by
  rw [newTypeWithin]
  congr! 4 with _ found
  cases found with
  | some id => rfl
  | none =>
    unfold fillType
    cases t.kind.shape with
    | function prototyped => cases prototyped <;> simp
    | _ => simp

/-- Converts what is in a record that has a node, if the cursor defines the record and no other one
has done so. -/
def fillRecord (s : ConversionSetting) (fuel : Nat) (c : Cursor) (id : NodeId) : Convert NodeId := do
  if !c.isDefinition || ((← node id).get "is_definition").isTrue then return id
  setField id "is_definition" (.bool true)
  setField id "size_of" (← sizeOf s.unit c)
  setField id "span" (← spanOf c)
  c.children.forM (memberWithin s fuel id)
  return id

theorem recordWithin_succ (s : ConversionSetting) (fuel : Nat) (cursor : CursorId)
    (parent : Value) :
    recordWithin s (fuel + 1) cursor parent = (do
      let key ← keyOf (s.unit.cursor cursor)
      match ← declared? key .record with
      | some id => do
        adopt id parent
        fillRecord s fuel (s.unit.cursor cursor) id
      | none => do
        let id ← newRecord s (s.unit.cursor cursor) parent
        declare key id
        fillRecord s fuel (s.unit.cursor cursor) id) := by
  rw [recordWithin]
  simp only [pure_bind]
  rfl

theorem forIn_yield {α : Type} (f : α → Convert Unit) (l : List α) :
    (forIn l PUnit.unit fun a _ => do
      f a
      return ForInStep.yield PUnit.unit) = l.forM f := by
  induction l with
  | nil => rfl
  | cons a rest ih => simp only [List.forIn_cons, bind_assoc, pure_bind, ih, List.forM]

theorem ite_bind {α β : Type} {P : Prop} [Decidable P] (x y : Convert α) (f : α → Convert β) :
    (if P then x else y) >>= f = if P then x >>= f else y >>= f := by split <;> rfl

/-- Adds a constant of an enumeration to its node. -/
def addItem (s : ConversionSetting) (id : NodeId) (child : CursorId) : Convert Unit := do
  if (← kindOf (s.unit.cursor child)) = .enumConstant then
    append id "items" (← addEnumItem s (s.unit.cursor child) id)

theorem enumWithin_succ (s : ConversionSetting) (fuel : Nat) (cursor : CursorId) (parent : Value) :
    enumWithin s (fuel + 1) cursor parent = (do
      let key ← keyOf (s.unit.cursor cursor)
      match ← declared? key .enum with
      | some id =>
        adopt id parent
        return id
      | none =>
        let id ← newEnum s (s.unit.cursor cursor) parent
        declare key id
        setField id "integer_type" (← typeWithin s fuel (s.unit.cursor cursor).enumType?)
        (s.unit.cursor cursor).children.forM (addItem s id)
        return id) := by
  simp only [enumWithin, ← forIn_yield, addItem, bind_assoc, ite_bind, pure_bind]
  all_goals rfl

end Convert

/-! ### What is shown -/

/-- A new node of a type, before its components are converted. -/
def CType.blank? (t : CType) : Option Node :=
  match t.kind.shape with
  | .primitive name => some (.make .primitiveType
      [("kind", .text name), ("name", .text t.spelling), ("size_of", .int (max t.size 0))])
  | .pointer => some (.make .pointerType [("size_of", .int (max t.size 0))])
  | .array sized => some (.make .arrayType
      [("size", .int (if sized then t.elementCount else -1)), ("size_of", .int (max t.size 0))])
  | .function _ => some (.make .functionType [])
  | .unexposed => some (.make .unexposedType
      [("name", .text t.spelling), ("size_of", .int (max t.size 0))])
  | _ => none

/-! ### One more member of a record -/

theorem CursorKind.isRecord_iff {k : CursorKind} : k.isRecord ↔ k = .struct ∨ k = .union := by
  simp [isRecord]

namespace RecordParts.Of

variable {m : RecordParts} {children : List CursorId} {child : CursorId} {id : NodeId}
  (h : m.Of s p children)

include h

theorem field (hkind : (s.unit.cursor child).kind = .field)
    (hid : p.made id = some (.field (s.unit.cursor child))) (hnew : id ∉ m.fields) :
    { m with fields := m.fields ++ [id] }.Of s p (children ++ [child]) where
  fields := h.fields.concat_of_pos (by simp [hkind]) hid
  nodup := by simpa using h.nodup.concat hnew
  classes := h.classes.concat_of_neg (by rw [hkind]; decide)
  enums := h.enums.concat_of_neg (by rw [hkind]; decide)
  attributes := h.attributes.concat_of_neg (by rw [hkind]; decide)

theorem record (hkind : (s.unit.cursor child).kind.isRecord)
    (hid : Represents s p child .record id) :
    { m with classes := m.classes ++ [id] }.Of s p (children ++ [child]) := by
  rcases CursorKind.isRecord_iff.1 hkind with heq | heq <;>
    exact ⟨h.fields.concat_of_neg (by rw [heq]; decide), h.nodup, h.classes.concat_of_pos hkind hid,
      h.enums.concat_of_neg (by rw [heq]; decide),
      h.attributes.concat_of_neg (by rw [heq]; decide)⟩

theorem enum (hkind : (s.unit.cursor child).kind = .enum) (hid : Represents s p child .enum id) :
    { m with enums := m.enums ++ [id] }.Of s p (children ++ [child]) where
  fields := h.fields.concat_of_neg (by rw [hkind]; decide)
  nodup := h.nodup
  classes := h.classes.concat_of_neg (by rw [hkind]; decide)
  enums := h.enums.concat_of_pos (by simp [hkind]) hid
  attributes := h.attributes.concat_of_neg (by rw [hkind]; decide)

variable (hfield : (s.unit.cursor child).kind ≠ .field)
  (hrecord : ¬(s.unit.cursor child).kind.isRecord) (henum : (s.unit.cursor child).kind ≠ .enum)

include hfield hrecord henum

theorem attr (hattr : (s.unit.cursor child).kind.isAttribute)
    (hid : p.made id = some (.attr (s.unit.cursor child))) :
    { m with attributes := m.attributes ++ [id] }.Of s p (children ++ [child]) where
  fields := h.fields.concat_of_neg (by simpa using hfield)
  nodup := h.nodup
  classes := h.classes.concat_of_neg hrecord
  enums := h.enums.concat_of_neg (by simpa using henum)
  attributes := h.attributes.concat_of_pos hattr hid

theorem other (hattr : ¬(s.unit.cursor child).kind.isAttribute) :
    m.Of s p (children ++ [child]) where
  fields := h.fields.concat_of_neg (by simpa using hfield)
  nodup := h.nodup
  classes := h.classes.concat_of_neg hrecord
  enums := h.enums.concat_of_neg (by simpa using henum)
  attributes := h.attributes.concat_of_neg hattr

end RecordParts.Of

/-! ### New declarations -/

/-- A node has just been added; nothing is known of it but what it shows and where its cursor
stands. -/
def IsNew (s : ConversionSetting) (O : Set NodeId) (p : Account) (c : Cursor)
    (shown : NodeId → Node) (id : NodeId) (p' : Account) : Prop :=
  ∃ p₁ n span, p' = p₁.enter n none ∧ id = p₁.graph.size ∧ IsSpan p₁ c span ∧
    n.core = (shown span).core ∧ Continues s O ∅ p p₁ ∧ p₁.declarations = p.declarations

namespace Leaves

open DeclGraph.Convert

theorem newRecord (h : Sound s O p) (c : Cursor) (parent : Value) :
    Leaves p (newRecord s c parent) (IsNew s O p c fun span =>
      .make .record (recordHead s c ++ [("span", .node span)])) := by
  refine .reads_bind (.kindOf c) (.reads_bind (.ownNameOf c) ((spanOf h c).bind ?_))
  rintro _ p₁ ⟨span, rfl, hspan, h₁, heq⟩
  exact .add none ⟨p₁, _, span, rfl, rfl, hspan, rfl, h₁, heq⟩

theorem newEnum (h : Sound s O p) (c : Cursor) (parent : Value) :
    Leaves p (newEnum s c parent) (IsNew s O p c fun span =>
      .make .enum [("name", .text c.ownName), ("size_of", .int (s.unit.sizeOf c)),
        ("is_anonymous", .bool c.isAnonymous), ("span", .node span), ("comment", commentOf s c)]) := by
  refine .reads_bind (.ownNameOf c) (.reads_bind (.sizeOf _ c) ((spanOf h c).bind ?_))
  rintro _ p₁ ⟨span, rfl, hspan, h₁, heq⟩
  exact .add none ⟨p₁, _, span, rfl, rfl, hspan, rfl, h₁, heq⟩

theorem newTypedef (h : Sound s O p) (c : Cursor) (parent : Value) :
    Leaves p (newTypedef s c parent) (IsNew s O p c fun span =>
      .make .typedef [("name", .text c.spelling), ("size_of", .int (s.unit.sizeOf c)),
        ("span", .node span), ("comment", commentOf s c)]) := by
  refine .reads_bind (.nameOf c) (.reads_bind (.sizeOf _ c) ((spanOf h c).bind ?_))
  rintro _ p₁ ⟨span, rfl, hspan, h₁, heq⟩
  exact .add none ⟨p₁, _, span, rfl, rfl, hspan, rfl, h₁, heq⟩

/-- A new enumeration or defined type is published while it is open. -/
theorem announce {c : CursorId} {k : Kind} {shown : NodeId → Node} {id : NodeId} {q : Account}
    (hnew : IsNew s O p (s.unit.cursor c) shown id q)
    (hid : Entries.get? (s.unit.cursor c).key p.declarations = none)
    (hreached : Reached s p (.declaration c k)) (hk : k ≠ .record)
    (hkind : ∀ span, (shown span).isKind k)
    (hflag : ∀ span, ((shown span).get "is_definition").isTrue = false) {β : Type}
    {f : Unit → Convert β} {R : β → Account → Prop}
    (hf : ∀ p₁ p₂ span, Continues s O ∅ p p₁ → p₁.graph.size = id → Keeps ∅ p₁ p₂ →
      Sound s (insert id O) p₂ → p₂.made id = some (.declaration c k) →
      Reached s p₂ (.declaration c k) → p₂.Shows id (shown span) →
      IsSpan p₂ (s.unit.cursor c) span → Leaves p₂ (f ()) R) :
    Leaves q (declare (s.unit.cursor c).key id >>= f) R := by
  obtain ⟨p₁, n, span, rfl, rfl, hspan, hn, h₁, heq⟩ := hnew
  have hid₁ : Entries.get? (s.unit.cursor c).key p₁.declarations = none := heq ▸ hid
  -- publishing takes no key away, for there was none
  have keeps : Keeps ∅ p₁ (p₁.announce (s.unit.cursor c).key n c k) := h₁.sound.keeps_announce hid₁
  have hreached₁ := hreached.mono h₁.keeps.made h₁.keeps.filled
  refine .declare_bind c k (hf p₁ _ span h₁ rfl keeps
    (h₁.sound.announce hid₁ hreached₁ hn (hkind span) (hflag span) hk)
    (made_announce .. ▸ if_pos rfl) (hreached₁.mono keeps.made keeps.filled)
    ((shows_enter p₁ n none).trans hn) (hspan.keep keeps))

end Leaves

/-! ### What conversions leave -/

open DeclGraph.Convert in
/-- What conversions with some fuel leave. -/
structure Converts (s : ConversionSetting) (fuel : Nat) : Prop where
  type : ∀ {O p t?}, Sound s O p → Reached s p (.type t?) →
    Leaves p (typeWithin s fuel t?) fun v p' => Stands s p' t? v ∧ Continues s O ∅ p p'
  newType : ∀ {O p t n}, Sound s O p → Reached s p (.type (some t)) →
    (s.unit.type t).blank? = some n →
    Leaves p (newTypeWithin s fuel (s.unit.type t) n) fun v p' =>
      Stands s p' (some t) v ∧ Continues s O ∅ p p'
  record : ∀ {O p c parent}, Sound s O p → Reached s p (.declaration c .record) →
    Leaves p (recordWithin s fuel c parent) fun id p' =>
      Represents s p' c .record id ∧ Continues s O ∅ p p'
  member : ∀ {O p c d done child id}, Sound s O p → id ∈ O → p.filled id = some d →
    Reached s p (.declaration d .record) → child ∈ (s.unit.cursor d).children →
    IsFilled s p c (s.unit.cursor d) done id →
    Leaves p (memberWithin s fuel id child) fun _ p' =>
      IsFilled s p' c (s.unit.cursor d) (done ++ [child]) id ∧ Continues s O {id} p p'
  enum : ∀ {O p c parent}, Sound s O p → Reached s p (.declaration c .enum) →
    Leaves p (enumWithin s fuel c parent) fun id p' =>
      Represents s p' c .enum id ∧ Continues s O ∅ p p'
  typedef : ∀ {O p c parent}, Sound s O p → Reached s p (.declaration c .typedef) →
    Leaves p (typedefWithin s fuel c parent) fun id p' =>
      Represents s p' c .typedef id ∧ Continues s O ∅ p p'
  field : ∀ {O p c parent}, Sound s O p → Reached s p (.type (s.unit.cursor c).type?) →
    Leaves p (fieldWithin s fuel c parent) fun id p' =>
      p'.made id = some (.field (s.unit.cursor c)) ∧ p.graph.size ≤ id ∧ Continues s O ∅ p p'

namespace Converts

open DeclGraph.Convert

variable {fuel : Nat}

/-- Without fuel nothing is converted. -/
theorem zero : Converts s 0 where
  type _ _ := by rw [typeWithin]; exact .throw _
  newType _ _ _ := by rw [newTypeWithin]; exact .throw _
  record _ _ := by rw [recordWithin]; exact .throw _
  member _ _ _ _ _ _ := by rw [memberWithin]; exact .throw _
  enum _ _ := by rw [enumWithin]; exact .throw _
  typedef _ _ := by rw [typedefWithin]; exact .throw _
  field _ _ := by rw [fieldWithin]; exact .throw _

variable (ih : Converts s fuel)

include ih

/-! ### Types -/

theorem type_succ {t? : Option TypeId} (h : Sound s O p) (hreached : Reached s p (.type t?)) :
    Leaves p (typeWithin s (fuel + 1) t?) fun v p' =>
      Stands s p' t? v ∧ Continues s O ∅ p p' := by
  cases t? with
  | none =>
    rw [typeWithin]
    exact .pure ⟨.nothing, .refl h ∅⟩
  | some t =>
    rw [typeWithin]
    refine .reads_bind (.check _) ?_
    -- a declaration has its own function, and a longer name stands for what it names
    cases hshape : (s.unit.type t).kind.shape with
    | invalid => exact .pure ⟨.invalid hshape, .refl h ∅⟩
    | elaborated =>
      exact (ih.type h (hreached.named hshape)).mono fun v p' hv => ⟨.elaborated hshape hv.1, hv.2⟩
    | record =>
      have hdecl : (s.unit.type t).kind.shape.declares? = some .record := by rw [hshape]; rfl
      exact (ih.record h (hreached.declared hdecl)).bind fun id p' hid =>
        .pure ⟨.declared hdecl hid.1, hid.2⟩
    | enum =>
      have hdecl : (s.unit.type t).kind.shape.declares? = some .enum := by rw [hshape]; rfl
      exact (ih.enum h (hreached.declared hdecl)).bind fun id p' hid =>
        .pure ⟨.declared hdecl hid.1, hid.2⟩
    | typedef =>
      have hdecl : (s.unit.type t).kind.shape.declares? = some .typedef := by rw [hshape]; rfl
      exact (ih.typedef h (hreached.declared hdecl)).bind fun id p' hid =>
        .pure ⟨.declared hdecl hid.1, hid.2⟩
    | primitive | pointer | array | function | unexposed =>
      exact ih.newType h hreached (by rw [CType.blank?, hshape])

/-- The parameters that a type tells of. -/
theorem arguments {id : NodeId} (h : Sound s O p) {arguments : List TypeId}
    (hreached : ∀ a ∈ arguments, Reached s p (.type (some a))) :
    Leaves p (arguments.mapM fun a => do
        let type ← typeWithin s fuel (some a)
        add (.make .parameter [("name", .text ""), ("type", type), ("parent", .node id)]))
      fun ids p' => List.Forall₂ (fun id a => p'.made id = some (.argument a)) ids arguments ∧
        Continues s O ∅ p p' := by
  induction arguments generalizing p with
  | nil => exact .pure ⟨.nil, .refl h ∅⟩
  | cons a rest ihrest =>
    rw [List.mapM_cons]
    refine Leaves.bind (Q := fun id p' =>
      p'.made id = some (.argument a) ∧ Continues s O ∅ p p') ?_ fun id p₁ ⟨hid, h₁⟩ => ?_
    · refine (ih.type h (hreached a List.mem_cons_self)).bind fun v p₁ ⟨hv, h₁⟩ => ?_
      refine .add (some (.argument a)) ⟨made_enter .., h₁.trans (.enter h₁.sound rfl ?_)⟩
      exact fun keeps hshows => ⟨v, hshows, hv.keep keeps⟩
    · -- the other types have been reached before, and stay so
      have hrest : ∀ a ∈ rest, Reached s p₁ (.type (some a)) := fun a ha =>
        (hreached a (List.mem_cons_of_mem _ ha)).mono h₁.keeps.made h₁.keeps.filled
      refine (ihrest h₁.sound hrest).bind fun ids p₂ ⟨hids, h₂⟩ => .pure ⟨?_, h₁.trans h₂⟩
      exact .cons (h₂.keeps.made _ _ hid) hids

/-- The components of a type that has been published. -/
theorem fillType {t : TypeId} {id : NodeId} {n : Node} (h : Sound s O p) (hid : id ∈ O)
    (hmade : p.made id = some (.type t)) (hreached : Reached s p (.type (some t)))
    (hn : (s.unit.type t).blank? = some n) (hshows : p.Shows id n) :
    Leaves p (fillType s fuel (s.unit.type t) id) fun _ p' =>
      IsType s p' (s.unit.type t) id ∧ Continues s O {id} p p' := by
  have hlt := h.below _ _ hmade
  -- converting a component may lead back here, but it leaves the node as it is
  have component : ∀ {t?}, t? ∈ (s.unit.type t).components →
      Leaves p (typeWithin s fuel t?) fun v p₁ =>
        Stands s p₁ t? v ∧ p₁.Shows id n ∧ Continues s O {id} p p₁ := fun ht =>
    (ih.type h (hreached.component hmade ht)).mono fun v p₁ ⟨hv, h₁⟩ =>
      ⟨hv, h₁.keeps.shows hlt (notMem_unfilled hmade (by simp)) hshows, h₁.mono (Set.empty_subset _)⟩
  have set : ∀ {p₁} name v, Continues s O {id} p p₁ → name ≠ "is_definition" →
      Continues s O {id} p (p₁.setField id name v) := fun name v h₁ hname =>
    h₁.trans (.setField h₁.sound hid name hname v)
  unfold Convert.fillType
  cases hshape : (s.unit.type t).kind.shape with
  | invalid | elaborated | record | enum | typedef => simp [CType.blank?, hshape] at hn
  | primitive | unexposed =>
    simp only [CType.blank?, hshape, Option.some.injEq] at hn
    refine .pure ⟨?_, .refl h _⟩
    simp only [IsType, ShowsType, hshape]
    exact hn ▸ hshows
  | pointer | array =>
    simp only [CType.blank?, hshape, Option.some.injEq] at hn
    refine (component (by simp [CType.components, hshape])).bind fun v p₁ ⟨hv, hshows₁, h₁⟩ => ?_
    refine .setField ⟨?_, set _ _ h₁ (by decide)⟩
    simp only [IsType, ShowsType, hshape]
    subst hn
    exact ⟨v, hshows₁.setField _ v, hv.keep (.setField ..)⟩
  | function prototyped =>
    simp only [CType.blank?, hshape, Option.some.injEq] at hn
    subst hn
    refine (component (by simp [CType.components, hshape])).bind fun v p₁ ⟨hv, hshows₁, h₁⟩ => ?_
    refine .setField_bind ?_
    cases prototyped with
    | false =>
      -- without a prototype there are no parameters to convert
      refine .pure ⟨?_, set _ _ h₁ (by decide)⟩
      simp only [IsType, ShowsType, hshape]
      exact ⟨v, hshows₁.setField _ v, hv.keep (.setField ..)⟩
    | true =>
      refine .setField_bind ?_
      have h₂ := set "is_variadic" (.bool (s.unit.type t).isVariadic)
        (set "return_type" v h₁ (by decide)) (by decide)
      have hv₂ := (hv.keep (.setField p₁ id "return_type" v)).keep (.setField _ id "is_variadic"
        (.bool (s.unit.type t).isVariadic))
      have hshows₂ := (hshows₁.setField "return_type" v).setField "is_variadic"
        (.bool (s.unit.type t).isVariadic)
      generalize (p₁.setField id "return_type" v).setField id "is_variadic" _ = p₂ at *
      have hmade₂ := h₂.keeps.made _ _ hmade
      have hargs : ∀ a ∈ (s.unit.type t).arguments, Reached s p₂ (.type (some a)) := fun a ha =>
        (hreached.mono h₂.keeps.made h₂.keeps.filled).component hmade₂
          (by simp [CType.components, hshape, ha])
      refine (ih.arguments h₂.sound hargs).bind fun ids p₃ ⟨hids, h₃⟩ => ?_
      have hshows₃ := h₃.keeps.shows (h₂.sound.below _ _ hmade₂)
        (notMem_unfilled hmade₂ (by simp)) hshows₂
      refine .setField ⟨?_, set _ _ (h₂.trans (h₃.mono (Set.empty_subset _))) (by decide)⟩
      simp only [IsType, ShowsType, hshape]
      exact ⟨v, ids, hshows₃.setField _ _, (hv₂.keep h₃.keeps).keep (.setField ..), hids⟩

theorem newType_succ {t : TypeId} {n : Node} (h : Sound s O p)
    (hreached : Reached s p (.type (some t))) (hn : (s.unit.type t).blank? = some n) :
    Leaves p (newTypeWithin s (fuel + 1) (s.unit.type t) n) fun v p' =>
      Stands s p' (some t) v ∧ Continues s O ∅ p p' := by
  have hstructural : (s.unit.type t).kind.shape.isStructural := by
    unfold CType.blank? at hn
    cases hshape : (s.unit.type t).kind.shape <;> simp [hshape, TypeShape.isStructural] at hn ⊢
  rw [newTypeWithin_succ]
  refine .reads_bind (.check _) (.converted_bind ?_)
  cases hid : Entries.get? ((s.unit.type t).kind, (s.unit.type t).spelling) p.types with
  | some id => exact .pure ⟨.structural hstructural hid, .refl h ∅⟩
  | none =>
    -- The new node is published at once; it is open while its components are converted.
    have keeps : Keeps ∅ p (p.addType (s.unit.type t).key n t) := h.keeps_addType hid
    have h₁ := h.addType (n := n) hid hstructural hreached
    refine .addType_bind t ((ih.fillType h₁ (Set.mem_insert _ _) (if_pos rfl)
      (hreached.mono keeps.made keeps.filled) hn (shows_enter p n (some (.type t)))).bind
      fun _ p₂ ⟨hm, h₂⟩ => ?_)
    have hmade := h₂.keeps.made _ _ (if_pos rfl)
    refine .pure ⟨.structural hstructural (h₂.sound.typed _ _ hmade).1, .finish keeps le_rfl h₂ ?_⟩
    intro o ho
    obtain rfl := Option.some.inj (hmade.symm.trans ho)
    exact hm

/-! ### Records -/

theorem member_succ {c : Cursor} {d child : CursorId} {done : List CursorId} {id : NodeId}
    (h : Sound s O p) (hid : id ∈ O) (hd : p.filled id = some d)
    (hreached : Reached s p (.declaration d .record)) (hchild : child ∈ (s.unit.cursor d).children)
    (hfilled : IsFilled s p c (s.unit.cursor d) done id) :
    Leaves p (memberWithin s (fuel + 1) id child) fun _ p' =>
      IsFilled s p' c (s.unit.cursor d) (done ++ [child]) id ∧ Continues s O {id} p p' := by
  obtain ⟨c₀, hmade, _⟩ := (h.filled _ _ hd).1
  obtain ⟨span, m, hshows, hspan, hm⟩ := hfilled
  -- While a member is converted, the record stays as it is.
  have keep : ∀ {p₁}, Continues s O ∅ p p₁ →
      p₁.Shows id (filledRecord s c (s.unit.cursor d) span m) :=
    fun h₁ => h₁.keeps.shows (h.below _ _ hmade) (fun hX => hX.elim (fun hempty => hempty)
      fun hunfilled => by simpa [hd] using hunfilled.2) hshows
  have grow : ∀ {p₁ m}, Continues s O ∅ p p₁ → m.Of s p₁ (done ++ [child]) →
      ∀ p₂, p₂.Shows id (filledRecord s c (s.unit.cursor d) span m) ∧ Continues s O {id} p₁ p₂ →
      IsFilled s p₂ c (s.unit.cursor d) (done ++ [child]) id ∧ Continues s O {id} p p₂ :=
    fun h₁ hm p₂ ⟨hshows, h₂⟩ =>
      ⟨⟨_, _, hshows, (hspan.keep h₁.keeps).keep h₂.keeps, hm.keep h₂.keeps⟩,
        (h₁.mono (Set.empty_subset _)).trans h₂⟩
  have hdeclared : ∀ {k}, (s.unit.cursor child).kind.declares? = some k → k ≠ .typedef →
      Reached s p (.declaration child k) := fun hk hne => hreached.member hd hchild hk hne
  rw [memberWithin]
  refine .reads_bind (.kindOf _) ?_
  split_ifs with hfield hrecord henum hattr
  · refine (ih.field h (hreached.field hd hchild hfield)).bind ?_
    rintro x p₁ ⟨hx, hsize, h₁⟩
    have hnew : x ∉ m.fields := fun hmem => by
      obtain ⟨_, hold⟩ := hm.fields.exists_of_mem hmem
      exact absurd (h.below _ _ hold) (not_lt.2 hsize)
    exact (Leaves.append h₁.sound hid (keep h₁) rfl (by decide) (by decide)).mono fun _ =>
      grow h₁ ((hm.keep h₁.keeps).field hfield hx hnew)
  · have hk : (s.unit.cursor child).kind.declares? = some .record := if_pos hrecord
    refine (ih.record h (hdeclared hk (by simp))).bind ?_
    rintro x p₁ ⟨hx, h₁⟩
    exact (Leaves.appendOnce h₁.sound hid (keep h₁) rfl rfl (by decide) (by decide)).mono fun _ =>
      grow h₁ ((hm.keep h₁.keeps).record hrecord hx)
  · have hk : (s.unit.cursor child).kind.declares? = some .enum := by rw [henum]; rfl
    refine (ih.enum h (hdeclared hk (by simp))).bind ?_
    rintro x p₁ ⟨hx, h₁⟩
    exact (Leaves.appendOnce h₁.sound hid (keep h₁) rfl rfl (by decide) (by decide)).mono fun _ =>
      grow h₁ ((hm.keep h₁.keeps).enum henum hx)
  · refine (Leaves.addAttribute h _ _).bind ?_
    rintro x p₁ ⟨hx, h₁⟩
    exact (Leaves.append h₁.sound hid (keep h₁) rfl (by decide) (by decide)).mono fun _ =>
      grow h₁ ((hm.keep h₁.keeps).attr hfield hrecord henum hattr hx)
  · exact .pure ⟨⟨span, m, hshows, hspan, hm.other hfield hrecord henum hattr⟩, .refl h _⟩

/-- All members of a record, one after another. -/
theorem members {c : Cursor} {d : CursorId} {done rest : List CursorId} {id : NodeId}
    (h : Sound s O p) (hid : id ∈ O) (hd : p.filled id = some d)
    (hreached : Reached s p (.declaration d .record))
    (hrest : ∀ child ∈ rest, child ∈ (s.unit.cursor d).children)
    (hfilled : IsFilled s p c (s.unit.cursor d) done id) :
    Leaves p (rest.forM (memberWithin s fuel id)) fun _ p' =>
      IsFilled s p' c (s.unit.cursor d) (done ++ rest) id ∧ Continues s O {id} p p' := by
  induction rest generalizing p done with
  | nil => exact .pure ⟨by rwa [List.append_nil], .refl h _⟩
  | cons child rest ihrest =>
    refine (ih.member h hid hd hreached (hrest _ List.mem_cons_self) hfilled).bind
      fun _ p₁ ⟨hfilled₁, h₁⟩ => ?_
    refine (ihrest h₁.sound (h₁.keeps.filled _ _ hd) (hreached.mono h₁.keeps.made h₁.keeps.filled)
      (fun child hchild => hrest child (List.mem_cons_of_mem _ hchild)) hfilled₁).mono
      fun _ p₂ ⟨hfilled₂, h₂⟩ => ⟨?_, h₁.trans h₂⟩
    rwa [List.append_assoc] at hfilled₂

/-- The record of a cursor that has a node: if the cursor defines it, it is filled now at the
latest. -/
theorem fillRecord {c₀ c : CursorId} {id : NodeId} (h : Sound s O p)
    (hmade : p.made id = some (.declaration c₀ .record))
    (hkey : (s.unit.cursor c₀).key = (s.unit.cursor c).key)
    (hreached : Reached s p (.declaration c .record)) :
    Leaves p (fillRecord s fuel (s.unit.cursor c) id) fun id' p' =>
      Represents s p' c .record id' ∧ Continues s O ∅ p p' := by
  have hlisted := (h.declared _ _ _ hmade).1
  rw [hkey] at hlisted
  refine .node_bind ?_
  rw [h.flagged _ _ hmade]
  by_cases hdef : (s.unit.cursor c).isDefinition
  swap
  · simp only [hdef, Bool.not_false, Bool.true_or, if_true]
    exact .pure ⟨⟨hlisted, fun _ hdef' => absurd hdef' hdef⟩, .refl h ∅⟩
  cases hfilled : p.filled id with
  | some d =>
    simp only [Option.isSome_some, Bool.or_true, if_true]
    exact .pure ⟨⟨hlisted, fun _ _ => by rw [hfilled, Option.isSome_some]⟩, .refl h ∅⟩
  | none =>
    -- The record counts as filled from here on, and it is open until its members are there.
    simp only [hdef, Bool.not_true, Option.isSome_none, Bool.or_false, Bool.false_eq_true, if_false]
    have hmem : id ∈ insert id O := Set.mem_insert _ _
    have hfill : Keeps {id} p (p.fill id c) := .fill hfilled
    obtain ⟨span₀, hshows, _⟩ := h.isUnfilled hmade hfilled
    have hshows₁ : (p.fill id c).Shows id _ := hshows.setField "is_definition" (.bool true)
    have hc₁ : (p.fill id c).filled id = some c := if_pos rfl
    have h₁ := Continues.refl (h.fill hmade hfilled hkey hdef hreached) {id}
    refine .setField_bind (.recount (q := p.fill id c) rfl (.reads_bind (.sizeOf _ _) ?_))
    generalize p.fill id c = p₁ at *
    refine .setField_bind ?_
    have h₂ := h₁.trans (.setField h₁.sound hmem "size_of" (by decide)
      (.int (s.unit.sizeOf (s.unit.cursor c))))
    have hshows₂ := hshows₁.setField "size_of" (.int (s.unit.sizeOf (s.unit.cursor c)))
    generalize p₁.setField id "size_of" _ = p₂ at *
    have hmade₂ := h₂.keeps.made _ _ (hfill.made _ _ hmade)
    have hX₂ : id ∉ ∅ ∪ p₂.unfilled := fun hX => hX.elim (fun hempty => hempty) fun hunfilled => by
      simpa [h₂.keeps.filled _ _ hc₁] using hunfilled.2
    refine (Leaves.spanOf h₂.sound _).bind ?_
    rintro _ p₃ ⟨span, rfl, hspan, h₃, _⟩
    have hshows₃ := h₃.keeps.shows (h₂.sound.below _ _ hmade₂) hX₂ hshows₂
    refine .setField_bind ?_
    have h₃₄ := Continues.setField h₃.sound hmem "span" (by decide) (.node span)
    have h₄ := (h₂.trans (h₃.mono (Set.empty_subset _))).trans h₃₄
    have hfilled₄ : IsFilled s _ (s.unit.cursor c₀) (s.unit.cursor c) [] id :=
      ⟨span, .none, hshows₃.setField "span" (.node span), hspan.keep h₃₄.keeps,
        ⟨.nil, .nil, .nil, .nil, .nil⟩⟩
    have reached₄ := (hreached.mono hfill.made hfill.filled).mono h₄.keeps.made h₄.keeps.filled
    refine (ih.members h₄.sound hmem (h₄.keeps.filled _ _ hc₁) reached₄ (fun _ hchild => hchild)
      hfilled₄).bind fun _ p₅ ⟨hm, h₄₅⟩ => ?_
    have h₅ := h₄.trans h₄₅
    have hc₅ := h₅.keeps.filled _ _ hc₁
    refine .pure ⟨⟨h₅.keeps.declarations _ _ (hfill.declarations _ _ hlisted), fun _ _ => ?_⟩, ?_, ?_⟩
    · rw [hc₅, Option.isSome_some]
    · refine (Continues.keeps_trans hfill.step h₅.keeps fun _ hid _ => hid).mono ?_
      refine Set.union_subset (Set.singleton_subset_iff.2 (.inr ?_)) Set.subset_union_right
      exact ⟨⟨_, hmade⟩, hfilled⟩
    · refine h₅.sound.close fun o ho => ?_
      obtain rfl := Option.some.inj ((h₅.keeps.made _ _ (hfill.made _ _ hmade)).symm.trans ho)
      simpa only [Mirrors, IsDeclaration, IsRecord, hc₅, List.nil_append] using hm

/-! ### Enumerations -/

omit ih in
/-- All constants of an enumeration, one after another. -/
theorem items {c : CursorId} {done rest : List CursorId} {id : NodeId} (h : Sound s O p)
    (hid : id ∈ O) (hmade : p.made id = some (.declaration c .enum))
    (hm : IsEnumOf s p (s.unit.cursor c) done id) :
    Leaves p (rest.forM (addItem s id)) fun _ p' =>
      IsEnumOf s p' (s.unit.cursor c) (done ++ rest) id ∧ Continues s O {id} p p' := by
  induction rest generalizing p done with
  | nil => exact .pure ⟨by rwa [List.append_nil], .refl h _⟩
  | cons child rest ihrest =>
    refine Leaves.bind (Q := fun _ p₁ => IsEnumOf s p₁ (s.unit.cursor c) (done ++ [child]) id ∧
      Continues s O {id} p p₁) ?_ fun _ p₁ ⟨hm₁, h₁⟩ => ?_
    · obtain ⟨span, type, items, hshows, hspan, htype, hitems, hnodup⟩ := hm
      refine .reads_bind (.kindOf _) ?_
      split_ifs with hkind
      · refine (Leaves.addEnumItem h _ id).bind fun x p₁ ⟨hx, hsize, h₁⟩ => ?_
        -- an item gets a node of its own, behind all that there are
        have hnew : x ∉ items := fun hmem => by
          obtain ⟨_, hold⟩ := hitems.exists_of_mem hmem
          exact absurd (h.below _ _ hold) (not_lt.2 hsize)
        have hshows₁ := h₁.keeps.shows (h.below _ _ hmade) (notMem_unfilled hmade (by simp)) hshows
        refine (Leaves.append h₁.sound hid hshows₁ rfl (by decide) (by decide)).mono
          fun _ p₂ ⟨hshows₂, h₂⟩ => ?_
        have h₁₂ := (h₁.mono (Set.empty_subset {id})).trans h₂
        exact ⟨⟨span, type, _, hshows₂, hspan.keep h₁₂.keeps, htype.keep h₁₂.keeps,
          (hitems.imp fun _ _ => h₁₂.keeps.made _ _).concat_of_pos (by simp [hkind])
            (h₂.keeps.made _ _ hx), by simpa using hnodup.concat hnew⟩, h₁₂⟩
      · exact .pure ⟨⟨span, type, items, hshows, hspan, htype,
          hitems.concat_of_neg (by simpa using hkind), hnodup⟩, .refl h _⟩
    · refine (ihrest h₁.sound (h₁.keeps.made _ _ hmade) hm₁).mono fun _ p₂ ⟨hm₂, h₂⟩ =>
        ⟨?_, h₁.trans h₂⟩
      rwa [List.append_assoc] at hm₂

variable (hkeys : s.unit.KeysTellKinds)

include hkeys

theorem enum_succ {c : CursorId} {parent : Value} (h : Sound s O p)
    (hreached : Reached s p (.declaration c .enum)) :
    Leaves p (enumWithin s (fuel + 1) c parent) fun id p' =>
      Represents s p' c .enum id ∧ Continues s O ∅ p p' := by
  rw [enumWithin_succ]
  refine .reads_bind (.keyOf _) (.declared_bind ?_)
  rw [h.filter_isKind hkeys hreached]
  cases hid : Entries.get? (s.unit.cursor c).key p.declarations with
  | some id =>
    refine (Leaves.adopt h id parent).bind fun _ p₁ h₁ => .pure ⟨⟨?_, by simp⟩, h₁⟩
    exact h₁.keeps.declarations _ _ hid
  -- the node is announced first, so what leads back to it finds it
  | none =>
    refine (Leaves.newEnum h (s.unit.cursor c) parent).bind fun id q hq => ?_
    refine .announce hq hid hreached (by simp) (fun _ => rfl) (fun _ => rfl)
      fun p₁ p₂ span h₁ hsize keeps h₂ hmade hreached₂ hshows hspan => ?_
    have hmem : id ∈ insert id O := Set.mem_insert _ _
    refine (ih.type h₂ (.constants hreached₂ hmade)).bind
      fun type p₃ ⟨htype, h₃⟩ => .setField_bind ?_
    have hshows₃ := h₃.keeps.shows (h₂.below _ _ hmade) (notMem_unfilled hmade (by simp)) hshows
    have h₃₄ := Continues.setField h₃.sound hmem "integer_type" (by decide) type
    have h₄ := (h₃.mono (Set.empty_subset {id})).trans h₃₄
    have hm₄ : IsEnumOf s _ (s.unit.cursor c) [] id :=
      ⟨span, type, [], hshows₃.setField "integer_type" type,
        (hspan.keep h₃.keeps).keep h₃₄.keeps, htype.keep h₃₄.keeps, .nil, .nil⟩
    refine (items h₄.sound hmem (h₄.keeps.made _ _ hmade) hm₄).bind fun _ p₅ ⟨hm₅, h₄₅⟩ => ?_
    have h₅ := h₄.trans h₄₅
    have hmade₅ := h₅.keeps.made _ _ hmade
    refine .pure ⟨⟨(h₅.sound.declared _ _ _ hmade₅).1, by simp⟩,
      h₁.trans (.finish keeps hsize.le h₅ fun o ho => ?_)⟩
    obtain rfl := Option.some.inj (hmade₅.symm.trans ho)
    simpa only [Mirrors, IsDeclaration, List.nil_append] using hm₅

/-! ### Defined types and fields -/

theorem typedef_succ {c : CursorId} {parent : Value} (h : Sound s O p)
    (hreached : Reached s p (.declaration c .typedef)) :
    Leaves p (typedefWithin s (fuel + 1) c parent) fun id p' =>
      Represents s p' c .typedef id ∧ Continues s O ∅ p p' := by
  rw [typedefWithin]
  refine .reads_bind (.keyOf _) (.declared_bind ?_)
  rw [h.filter_isKind hkeys hreached]
  cases hid : Entries.get? (s.unit.cursor c).key p.declarations with
  | some id =>
    refine (Leaves.adopt h id parent).bind fun _ p₁ h₁ => .pure ⟨⟨?_, by simp⟩, h₁⟩
    exact h₁.keeps.declarations _ _ hid
  -- the node is announced first, so what leads back to it finds it
  | none =>
    refine (Leaves.newTypedef h (s.unit.cursor c) parent).bind fun id q hq => ?_
    refine .announce hq hid hreached (by simp) (fun _ => rfl) (fun _ => rfl)
      fun p₁ p₂ span h₁ hsize keeps h₂ hmade hreached₂ hshows hspan => ?_
    refine (ih.type h₂ (.aliased hreached₂ hmade)).bind ?_
    rintro type p₃ ⟨htype, h₃⟩
    refine .setField_bind ?_
    have hshows₃ := h₃.keeps.shows (h₂.below _ _ hmade) (notMem_unfilled hmade (by simp)) hshows
    have h₃₄ := Continues.setField h₃.sound (Set.mem_insert id O) "element_type"
      (by decide) type
    have h₄ := (h₃.mono (Set.empty_subset {id})).trans h₃₄
    have hmade₄ := h₄.keeps.made _ _ hmade
    refine .pure ⟨⟨(h₄.sound.declared _ _ _ hmade₄).1, by simp⟩,
      h₁.trans (.finish keeps hsize.le h₄ fun o ho => ?_)⟩
    obtain rfl := Option.some.inj (hmade₄.symm.trans ho)
    exact ⟨span, type, hshows₃.setField "element_type" type,
      (hspan.keep h₃.keeps).keep h₃₄.keeps, htype.keep h₃₄.keeps⟩

omit hkeys in
theorem field_succ {c : CursorId} {parent : Value} (h : Sound s O p)
    (hreached : Reached s p (.type (s.unit.cursor c).type?)) :
    Leaves p (fieldWithin s (fuel + 1) c parent) fun id p' =>
      p'.made id = some (.field (s.unit.cursor c)) ∧ p.graph.size ≤ id ∧
        Continues s O ∅ p p' := by
  rw [fieldWithin]
  refine .reads_bind (.nameOf _) (.reads_bind (.typeOf _) ?_)
  refine (ih.type h hreached).bind ?_
  rintro type p₁ ⟨htype, h₁⟩
  refine .reads_bind (.initialValue _ _) ((Leaves.spanOf h₁.sound _).bind ?_)
  rintro _ p₂ ⟨span, rfl, hspan, h₂, _⟩
  refine Leaves.add_open h₂.sound (.field (s.unit.cursor c)) rfl fun p₃ keeps h₃ hmade hshows => ?_
  refine (Leaves.addAttributes h₃ _ _).bind ?_
  rintro attributes p₄ ⟨hattributes, h₄⟩
  refine .setField_bind (.pure ?_)
  -- adding attributes leaves the other fields of the node alone
  have hshows₄ := h₄.keeps.shows (h₃.below _ _ hmade) (notMem_unfilled hmade (by simp)) hshows
  have h₄₅ := Continues.setField h₄.sound (Set.mem_insert _ _) "attributes" (by decide)
    (.nodes attributes)
  have h₅ := (h₄.mono (Set.empty_subset {p₂.graph.size})).trans h₄₅
  have hmade₅ := h₅.keeps.made _ _ hmade
  refine ⟨hmade₅, (h₁.trans h₂).keeps.size_le,
    (h₁.trans h₂).trans (.finish keeps le_rfl h₅ fun o ho => ?_)⟩
  obtain rfl := Option.some.inj (hmade₅.symm.trans ho)
  exact ⟨span, type, attributes, hshows₄.setField "attributes" _, (hspan.keep keeps).keep h₅.keeps,
    ((htype.keep h₂.keeps).keep keeps).keep h₅.keeps, hattributes.imp fun _ _ => h₄₅.keeps.made _ _⟩

/-! ### Records that were met before -/

theorem record_succ {c : CursorId} {parent : Value} (h : Sound s O p)
    (hreached : Reached s p (.declaration c .record)) :
    Leaves p (recordWithin s (fuel + 1) c parent) fun id p' =>
      Represents s p' c .record id ∧ Continues s O ∅ p p' := by
  rw [recordWithin_succ]
  refine .reads_bind (.keyOf _) (.declared_bind ?_)
  rw [h.filter_isKind hkeys hreached]
  cases hid : Entries.get? (s.unit.cursor c).key p.declarations with
  | some id =>
    obtain ⟨c₀, hmade, hkey⟩ := h.made_of_get? hkeys hreached hid
    refine (Leaves.adopt h id parent).bind fun _ p₁ h₁ => ?_
    refine (ih.fillRecord h₁.sound (h₁.keeps.made _ _ hmade) hkey
      (hreached.mono h₁.keeps.made h₁.keeps.filled)).mono fun id' p₂ ⟨hid', h₂⟩ => ?_
    exact ⟨hid', h₁.trans h₂⟩
  -- a record is closed as soon as it is announced: it is filled on its own
  | none =>
    refine (Leaves.newRecord h (s.unit.cursor c) parent).bind ?_
    rintro _ _ ⟨p₁, n, span, rfl, rfl, hspan, hn, h₁, heq⟩
    have hnew : Entries.get? (s.unit.cursor c).key p₁.declarations = none := heq ▸ hid
    have keeps : Keeps ∅ p₁ (p₁.announce (s.unit.cursor c).key n c .record) :=
      h₁.sound.keeps_announce hnew
    have hreached₁ := hreached.mono h₁.keeps.made h₁.keeps.filled
    -- not filled yet, it mirrors a declaration without fields
    have hm : Mirrors s (p₁.announce (s.unit.cursor c).key n c .record) p₁.graph.size
        (.declaration c .record) := by
      have hfilled : (p₁.announce (s.unit.cursor c).key n c .record).filled p₁.graph.size = none :=
        h₁.sound.filled_size
      simp only [Mirrors, IsDeclaration, IsRecord, hfilled]
      exact ⟨span, (shows_enter p₁ n none).trans hn, hspan.keep keeps⟩
    have h₂ := h₁.sound.announce_closed hnew hreached₁ hn rfl rfl hm
    refine .declare_bind c .record ((ih.fillRecord h₂ (made_announce .. ▸ if_pos rfl) rfl
      (hreached₁.mono keeps.made keeps.filled)).mono fun id p₃ hid =>
        ⟨hid.1, ?_⟩)
    exact h₁.trans (.trans ⟨keeps.step, h₂⟩ hid.2)

omit ih in
/-- Whatever the fuel, conversions leave what they should. -/
theorem all (fuel : Nat) : Converts s fuel := by
  induction fuel with
  | zero => exact zero
  | succ fuel ih =>
    exact {
      type := ih.type_succ
      newType := ih.newType_succ
      record := ih.record_succ hkeys
      member := ih.member_succ
      enum := ih.enum_succ hkeys
      typedef := ih.typedef_succ hkeys
      field := ih.field_succ }

end Converts

end DeclGraph
