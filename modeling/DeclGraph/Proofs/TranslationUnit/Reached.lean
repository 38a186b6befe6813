import DeclGraph.Proofs.TranslationUnit.Account

/-!
# What a conversion reaches

A conversion follows references from what stands at the top of a unit: from a declaration to its
types, from a type to its components and to its declaration, from the definition of a record to its
members.  `Reached` has one rule for each of these ways.  Of types that are written alike only the
one that became the node is followed, of the declarations with one key only the one that became the
node, and of the definitions of a record only the one that filled it; these are looked up in the
account of the conversion.
-/

namespace DeclGraph

/-! ### Declarations and components -/

/-- The kind of the node of what a cursor declares, for what is one node however often it is
declared. -/
def CursorKind.declares? (k : CursorKind) : Option Kind :=
  if k.isRecord then some .record
  else if k = .enum then some .enum
  else if k = .typedef then some .typedef
  else none

/-- The kind of the node of a type that is a declaration. -/
def TypeShape.declares? : TypeShape → Option Kind
  | .record => some .record
  | .enum => some .enum
  | .typedef => some .typedef
  | _ => none

/-- Whether a type is neither a declaration nor a longer name nor nothing. -/
def TypeShape.isStructural : TypeShape → Bool
  | .invalid | .elaborated | .record | .enum | .typedef => false
  | _ => true

theorem TypeShape.isStructural_of_declares? {shape : TypeShape} {k : Kind}
    (h : shape.declares? = some k) : shape.isStructural = false := by
  cases shape <;> first | rfl | cases h

namespace CType

/-- What types are told apart by. -/
def key (t : CType) : TypeKind × String := (t.kind, t.spelling)

/-- The types that a type is made of. -/
def components (t : CType) : List (Option TypeId) :=
  match t.kind.shape with
  | .pointer => [t.pointee?]
  | .array _ => [t.elementType?]
  | .function prototyped => t.result? :: (if prototyped then t.arguments.map some else [])
  | _ => []

end CType

/-- A unit has the types that are something. -/
theorem TranslationUnit.lt_size_of_shape_ne {u : TranslationUnit} {t : TypeId}
    (h : (u.type t).kind.shape ≠ .invalid) : t < u.types.size := by
  by_contra hle
  have hinvalid : TypeKind.invalid.shape = .invalid := by decide
  rw [type, Array.getD_eq_getD_getElem?, Array.getElem?_eq_none (not_lt.1 hle)] at h
  exact h hinvalid

/-- What is converted for the sake of something else. -/
inductive Reference
  | type (t? : Option TypeId)
  | declaration (c : CursorId) (k : Kind)

section

variable (s : ConversionSetting)

/-! ### What is converted for its own sake -/

/-- Whether a cursor at the top is kept. -/
def ConversionSetting.isKept (c : CursorId) : Bool := Convert.isKept s (s.unit.cursor c).location

/-- The cursors at the top that are kept. -/
def ConversionSetting.kept : List CursorId := s.unit.top.filter s.isKept

/-- Whether a cursor at the top may declare something. -/
def ConversionSetting.isVisited (c : CursorId) : Bool :=
  (s.unit.cursor c).kind != .definedMacro && !(s.unit.cursor c).kind.isAttribute

/-- The trees that are converted because of where they stand. -/
inductive Visited : CursorTree → Prop
  | top {c : CursorId} (hkept : c ∈ s.kept) (h : s.isVisited c) : Visited (s.unit.tree c)
  | inside {t t' : CursorTree} (ht : Visited t) (hscope : (s.unit.cursor t.id).kind = .scope)
      (h : t' ∈ t.children) : Visited t'

/-- The statements of the functions that are converted. -/
inductive InBody : CursorTree → Prop
  | body {f block t : CursorTree} (hf : Visited s f)
      (hfunction : (s.unit.cursor f.id).kind = .function) (hblock : block ∈ f.children)
      (hkind : (s.unit.cursor block.id).kind = .block) (h : t ∈ block.children) : InBody t
  | inside {t t' : CursorTree} (ht : InBody t) (h : t' ∈ t.children) : InBody t'

/-! ### What is converted for the sake of something else -/

variable (p : Account)

/-- What a conversion reaches. -/
inductive Reached : Reference → Prop
  /-- What a visited cursor declares. -/
  | visited {t : CursorTree} {k : Kind} (ht : Visited s t)
      (h : (s.unit.cursor t.id).kind.declares? = some k) : Reached (.declaration t.id k)
  /-- The type of a variable. -/
  | var {t : CursorTree} (ht : Visited s t) (h : (s.unit.cursor t.id).kind = .var) :
      Reached (.type (s.unit.cursor t.id).type?)
  /-- The type of the results of a function. -/
  | result {t : CursorTree} (ht : Visited s t) (h : (s.unit.cursor t.id).kind = .function) :
      Reached (.type (s.unit.cursor t.id).resultType?)
  /-- The types of the parameters of a function. -/
  | parameter {t : CursorTree} {c : CursorId} (ht : Visited s t)
      (hfunction : (s.unit.cursor t.id).kind = .function)
      (h : c ∈ (s.unit.cursor t.id).arguments) : Reached (.type (s.unit.cursor c).type?)
  /-- The types of the expressions in a function. -/
  | expression {t : CursorTree} (ht : InBody s t)
      (h : (s.unit.cursor t.id).kind.isExpression) : Reached (.type (s.unit.cursor t.id).type?)
  /-- The type that another one is a longer name for. -/
  | named {t : TypeId} (ht : Reached (.type (some t)))
      (h : (s.unit.type t).kind.shape = .elaborated) : Reached (.type (s.unit.type t).namedType?)
  /-- The declaration that a type is. -/
  | declared {t : TypeId} {k : Kind} (ht : Reached (.type (some t)))
      (h : (s.unit.type t).kind.shape.declares? = some k) :
      Reached (.declaration (s.unit.type t).declaration k)
  /-- The components of a type. -/
  | component {t : TypeId} {id : NodeId} {t? : Option TypeId} (ht : Reached (.type (some t)))
      (hmade : p.made id = some (.type t)) (h : t? ∈ (s.unit.type t).components) :
      Reached (.type t?)
  /-- The type of the constants of an enumeration. -/
  | constants {c : CursorId} {id : NodeId} (hc : Reached (.declaration c .enum))
      (hmade : p.made id = some (.declaration c .enum)) :
      Reached (.type (s.unit.cursor c).enumType?)
  /-- The type that a defined type is a name for. -/
  | aliased {c : CursorId} {id : NodeId} (hc : Reached (.declaration c .typedef))
      (hmade : p.made id = some (.declaration c .typedef)) :
      Reached (.type (s.unit.cursor c).underlyingType?)
  /-- The types of the fields of a record. -/
  | field {d child : CursorId} {id : NodeId} (hd : Reached (.declaration d .record))
      (hfilled : p.filled id = some d) (hchild : child ∈ (s.unit.cursor d).children)
      (h : (s.unit.cursor child).kind = .field) : Reached (.type (s.unit.cursor child).type?)
  /-- What is declared in a record. -/
  | member {d child : CursorId} {k : Kind} {id : NodeId} (hd : Reached (.declaration d .record))
      (hfilled : p.filled id = some d) (hchild : child ∈ (s.unit.cursor d).children)
      (h : (s.unit.cursor child).kind.declares? = some k) (hk : k ≠ .typedef) :
      Reached (.declaration child k)

end

/-! ### Keys -/

namespace TranslationUnit

variable (u : TranslationUnit)

/-- A cursor that is met as a declaration: because of its own kind or because a type is declared
there. -/
inductive Declares : CursorId → Kind → Prop
  | cursor {c : CursorId} {k : Kind} (h : (u.cursor c).kind.declares? = some k) : Declares c k
  | type {t : TypeId} {k : Kind} (h : (u.type t).kind.shape.declares? = some k) :
      Declares (u.type t).declaration k

/-- The key of a declaration tells its kind. -/
def KeysTellKinds : Prop :=
  ∀ c c' k k', u.Declares c k → u.Declares c' k' → (u.cursor c).key = (u.cursor c').key → k = k'

/-- No record is defined twice. -/
def DefinesOnce : Prop :=
  ∀ d d', u.Declares d .record → u.Declares d' .record → (u.cursor d).isDefinition →
    (u.cursor d').isDefinition → (u.cursor d).key = (u.cursor d').key → u.cursor d = u.cursor d'

/-- All cursors that are met as declarations. -/
def declared : List (CursorId × Kind) :=
  (List.range u.cursors.size).filterMap (fun c => (u.cursor c).kind.declares?.map (c, ·)) ++
    (List.range u.types.size).filterMap fun t =>
      (u.type t).kind.shape.declares?.map ((u.type t).declaration, ·)

theorem mem_declared {c : CursorId} {k : Kind} : (c, k) ∈ u.declared ↔ u.Declares c k := by
  simp only [declared, List.mem_append, List.mem_filterMap, List.mem_range, Option.map_eq_some_iff,
    Prod.mk.injEq]
  constructor
  · rintro (⟨c, _, k, hk, rfl, rfl⟩ | ⟨t, _, k, hk, rfl, rfl⟩)
    · exact .cursor hk
    · exact .type hk
  · rintro (hk | hk)
    · refine .inl ⟨c, Nat.lt_of_not_le fun hle => ?_, k, hk, rfl, rfl⟩
      have hnone : CursorKind.noDeclaration.declares? = none := by decide
      rw [cursor, Array.getD_eq_getD_getElem?, Array.getElem?_eq_none hle] at hk
      exact absurd (hnone.symm.trans hk) (by simp)
    · refine .inr ⟨_, Nat.lt_of_not_le fun hle => ?_, k, hk, rfl, rfl⟩
      have hnone : TypeKind.invalid.shape.declares? = none := by decide
      rw [type, Array.getD_eq_getD_getElem?, Array.getElem?_eq_none hle] at hk
      exact absurd (hnone.symm.trans hk) (by simp)

instance : Decidable u.KeysTellKinds :=
  decidable_of_iff (∀ x ∈ u.declared, ∀ y ∈ u.declared,
    (u.cursor x.1).key = (u.cursor y.1).key → x.2 = y.2) <| by
    simp only [Prod.forall, mem_declared, KeysTellKinds]
    exact ⟨fun h c c' k k' hc hc' => h c k hc c' k' hc', fun h c k hc c' k' hc' => h c c' k k' hc hc'⟩

instance : Decidable u.DefinesOnce :=
  decidable_of_iff (∀ x ∈ u.declared, ∀ y ∈ u.declared, x.2 = .record → y.2 = .record →
    (u.cursor x.1).isDefinition → (u.cursor y.1).isDefinition →
    (u.cursor x.1).key = (u.cursor y.1).key → u.cursor x.1 = u.cursor y.1) <| by
    simp only [Prod.forall, mem_declared, DefinesOnce]
    constructor
    · exact fun h d d' hd hd' => h d _ hd d' _ hd' rfl rfl
    · rintro h d _ hd d' _ hd' rfl rfl
      exact h d d' hd hd'

end TranslationUnit

namespace Reached

variable {s : ConversionSetting} {p p' : Account}

/-- What was reached stays reached. -/
theorem mono (hmade : ∀ id o, p.made id = some o → p'.made id = some o)
    (hfilled : ∀ id d, p.filled id = some d → p'.filled id = some d) {r : Reference}
    (h : Reached s p r) : Reached s p' r := by
  induction h with
  | visited ht h => exact .visited ht h
  | var ht h => exact .var ht h
  | result ht h => exact .result ht h
  | parameter ht hfunction h => exact .parameter ht hfunction h
  | expression ht h => exact .expression ht h
  | named _ h ih => exact .named ih h
  | declared _ h ih => exact .declared ih h
  | component _ hid h ih => exact .component ih (hmade _ _ hid) h
  | constants _ hid ih => exact .constants ih (hmade _ _ hid)
  | aliased _ hid ih => exact .aliased ih (hmade _ _ hid)
  | field _ hid hchild h ih => exact .field ih (hfilled _ _ hid) hchild h
  | member _ hid hchild h hkind ih => exact .member ih (hfilled _ _ hid) hchild h hkind

theorem declares {c : CursorId} {k : Kind} (h : Reached s p (.declaration c k)) :
    s.unit.Declares c k := by
  cases h with
  | visited _ h => exact .cursor h
  | declared _ h => exact .type h
  | member _ _ _ h _ => exact .cursor h

end Reached

end DeclGraph
