import DeclGraph.Proofs.TranslationUnit.Traced

/-!
# Reports of units with circles

A unit has circles wherever a record leads back to itself, and so has its graph.  Where all other
ways through the types of a unit come to an end (`TranslationUnit.TypesEnd`), the ways through the
nodes that were made from them do so too: a node leads to what stands for the components of its
type, or of one that is written like it, which is the same (`TranslationUnit.KeysTellTypes`).  So
every compilation has a report (`describe_of_compilation`).
-/

namespace DeclGraph

/-! ### Types that are made of types -/

theorem TypeShape.ne_invalid {shape : TypeShape} (h : shape.isStructural) : shape ≠ .invalid := by
  rintro rfl
  exact absurd h (by decide)

namespace TranslationUnit

variable (u : TranslationUnit)

/-- A type has a component that is another type, longer names left out. -/
def Follows (t t' : TypeId) : Prop := ∃ a ∈ (u.type t).components, u.Resolves a (some t')

/-- From component to component every way comes to an end, or to a record, an enumeration or a
defined type, which have no components. -/
def TypesEnd : Prop := WellFounded (Function.swap u.Follows)

/-- Types of one kind that are written alike are the same. -/
def KeysTellTypes : Prop :=
  ∀ t t', t ≠ t' → (u.type t).kind.shape.isStructural → (u.type t').kind.shape.isStructural →
    (u.type t).key = (u.type t').key → u.SameType (some t) (some t')

variable {u} {t t₀ t' : TypeId}

/-- Where types are written alike, so are those that they are made of. -/
theorem KeysTellTypes.exists_follows (h : u.KeysTellTypes)
    (hs : (u.type t₀).kind.shape.isStructural) (hkey : (u.type t₀).key = (u.type t).key)
    (hfollows : u.Follows t₀ t') (hs' : (u.type t').kind.shape.isStructural) :
    ∃ t'', u.Follows t t'' ∧ (u.type t').key = (u.type t'').key := by
  by_cases heq : t₀ = t
  · exact ⟨t', heq ▸ hfollows, rfl⟩
  have hst : (u.type t).kind.shape.isStructural := (Prod.mk.inj hkey).1 ▸ hs
  -- alike types have components that are alike in pairs
  obtain ⟨-, hcomponents⟩ := (h t₀ t heq hs hst hkey).components hs hst
  obtain ⟨a, ha, hresolves⟩ := hfollows
  obtain ⟨i, hi, rfl⟩ := List.getElem_of_mem ha
  have hi' : i < (u.type t).components.length := hcomponents.length_eq ▸ hi
  have hsame := hcomponents.get hi hi'
  cases hsame.alike with
  | nothing hnothing => exact absurd (hresolves.unique hnothing) (by simp)
  | declared hdeclared _ hk =>
    obtain rfl := Option.some.inj (hresolves.unique hdeclared)
    simp [TypeShape.isStructural_of_declares? hk] at hs'
  | structural hstructural hother _ hform =>
    obtain rfl := Option.some.inj (hresolves.unique hstructural)
    exact ⟨_, ⟨_, List.get_mem _ ⟨i, hi'⟩, hother⟩, CType.key_of_form hform⟩

/-! ### Units that can be checked -/

/-- It is enough that types rank above their components, and longer names no lower than what they
are names for. -/
theorem typesEnd_of_rank (rank : TypeId → Nat)
    (hcomponents : ∀ t < u.types.size, ∀ a ∈ (u.type t).components, ∀ t' ∈ a, rank t' < rank t)
    (hnames : ∀ t < u.types.size, (u.type t).kind.shape = .elaborated →
      ∀ t' ∈ (u.type t).namedType?, rank t' ≤ rank t) : u.TypesEnd := by
  -- what a name stands for ranks no higher than the name
  have hresolves {a r : Option TypeId} (h : u.Resolves a r) :
      ∀ t' ∈ r, ∃ t ∈ a, rank t' ≤ rank t := by
    induction h with
    | nothing | invalid => exact fun _ h => absurd h (Option.not_mem_none _)
    | elaborated hshape hr ih =>
      intro t' ht'
      obtain ⟨t'', ht'', hle⟩ := ih t' ht'
      have hlt := lt_size_of_shape_ne (by rw [hshape]; simp)
      exact ⟨_, rfl, hle.trans (hnames _ hlt hshape t'' ht'')⟩
    | declared | structural => exact fun t' ht' => ⟨t', ht', le_rfl⟩
  have hfollows {t t' : TypeId} (h : u.Follows t t') : rank t' < rank t := by
    obtain ⟨a, ha, hr⟩ := h
    obtain ⟨t'', ht'', hle⟩ := hresolves hr t' rfl
    have hlt : t < u.types.size := lt_size_of_shape_ne fun hshape => by
      simp [CType.components, hshape] at ha
    exact hle.trans_lt (hcomponents t hlt a ha t'' ht'')
  exact Subrelation.wf hfollows (InvImage.wf rank Nat.lt_wfRel.wf)

/-- It is enough that all types that are no declarations are of different kinds or written
differently. -/
theorem keysTellTypes_of_nodup
    (h : (((List.range u.types.size).filter fun t => (u.type t).kind.shape.isStructural).map
      fun t => (u.type t).key).Nodup) : u.KeysTellTypes := by
  intro t t' hne hs hs' hkey
  refine absurd (List.inj_on_of_nodup_map h ?_ ?_ hkey) hne
  · simp [lt_size_of_shape_ne (TypeShape.ne_invalid hs), hs]
  · simp [lt_size_of_shape_ne (TypeShape.ne_invalid hs'), hs']

end TranslationUnit

/-! ### Nodes that were made from types -/

namespace Kind

/-- How many levels of texts there are in the text of a node. -/
def height : Kind → Nat
  | .compilation => 2
  | .diagnostic | .function | .enum | .record => 1
  | _ => 0

end Kind

/-- Texts that are no types lead to types or down. -/
theorem Kind.height_lt {k : Kind} (hk : k ∉ structural) :
    ∀ e ∈ k.read, ∀ k' ∈ e.2.kinds, k' ∈ types ∨ k'.height < k.height := by
  cases k with
  | primitiveType | pointerType | arrayType | functionType | unexposedType =>
    exact absurd (by decide) hk
  | _ => decide

theorem TypeShape.isStructural_of_nodeKind? {shape : TypeShape} {k : Kind}
    (h : shape.nodeKind? = some k) : shape.isStructural := by
  cases shape <;> first | rfl | cases h

namespace Traced

variable {s : ConversionSetting} {p : Account} {t t₀ : TypeId} {id : NodeId}

theorem isStructural (h : Traced s p) (hmade : p.made id = some (.type t)) :
    (s.unit.type t).kind.shape.isStructural := by
  obtain ⟨k, -, hkind, -⟩ := h.kinds id _ hmade
  exact TypeShape.isStructural_of_nodeKind? hkind

/-- A node that was made from a type leads nowhere without end if the type does not. -/
theorem ends_of_made (h : Traced s p) (hkeys : s.unit.KeysTellTypes)
    (hends : Acc (Function.swap s.unit.Follows) t) (hmade : p.made id = some (.type t₀))
    (hkey : (s.unit.type t₀).key = (s.unit.type t).key) : p.graph.Ends id := by
  induction hends generalizing id t₀ with
  | intro t _ ih =>
    have hs := h.isStructural hmade
    have component {a : Option TypeId} {m : NodeId} (ha : a ∈ (s.unit.type t₀).components)
        (hm : TakenFor s p a m) (hnamed : ¬p.graph.IsNamed m) : p.graph.Ends m := by
      cases hm with
      | named hm => exact absurd hm hnamed
      | structural hresolves hm hkey' =>
        have hs' := (Prod.mk.inj hkey').1 ▸ h.isStructural hm
        obtain ⟨t'', hfollows, hkey''⟩ := hkeys.exists_follows hs hkey ⟨a, ha, hresolves⟩ hs'
        exact ih t'' hfollows hm (hkey'.trans hkey'')
    refine ⟨_, fun m ⟨hleads, hnamed⟩ => ?_⟩
    cases h.reaches id _ m hmade hleads with
    | component ha hm => exact component ha hm hnamed
    -- a parameter stands between a function and the type of an argument
    | parameter ha hm =>
      refine ⟨_, fun m' ⟨hleads', hnamed'⟩ => ?_⟩
      cases h.reaches m _ m' hm hleads' with
      | argument hm' => exact component ha hm' hnamed'

/-- All ways through the nodes come to an end, or to a record, an enumeration or a defined type. -/
theorem ends_of_typesEnd (h : Traced s p) (hkeys : s.unit.KeysTellTypes) (hends : s.unit.TypesEnd)
    (id : NodeId) : p.graph.Ends id := by
  have type {id : NodeId} {k : Kind} (hk : k ∈ Kind.structural)
      (hid : (p.graph.node id).isKind k) : p.graph.Ends id := by
    obtain ⟨t, hmade⟩ := h.told id k hk hid
    exact h.ends_of_made hkeys (hends.apply t) hmade rfl
  -- by the height of the kind: other nodes lead down, or to a type, or to what is named
  have kind (n : Nat) : ∀ id k, (p.graph.node id).isKind k → k.height = n → p.graph.Ends id := by
    induction n using Nat.strong_induction_on with
    | _ n ih =>
      rintro id k hid rfl
      by_cases hk : k ∈ Kind.structural
      · exact type hk hid
      refine ⟨_, fun m ⟨⟨k', hid', e, he, hleads⟩, hnamed⟩ => ?_⟩
      obtain rfl := Node.eq_of_isKind hid hid'
      obtain ⟨km, hkm, hm⟩ := (h.legible.fits hid he).exists_kind hleads
      rcases Kind.height_lt hk e he km hkm with htype | hlt
      · rcases List.mem_append.1 htype with hstructural | hnamed'
        · exact type hstructural hm
        · exact absurd ⟨km, hnamed', hm⟩ hnamed
      · exact ih _ hlt m km hm rfl
  by_cases hid : ∃ k, (p.graph.node id).isKind k
  · obtain ⟨k, hid⟩ := hid
    exact kind _ id k hid rfl
  · exact ⟨_, fun m ⟨⟨k, hk, _⟩, _⟩ => absurd ⟨k, hk⟩ hid⟩

end Traced

/-- The description of a compilation comes to an end, however many circles its graph has: on each of
them there is a record, an enumeration or a defined type, whose spelling does not go any deeper. -/
theorem TranslationUnit.describe_of_compilation {u : TranslationUnit} {source : String}
    {options : ParseOptions} {c : Compilation} (hends : u.TypesEnd) (hkeys : u.KeysTellTypes)
    (hc : u.compilation source options = .ok c) :
    (∀ warnings info, ∃ lines, c.graph.describe c.root warnings info = .ok lines) ∧
      (∀ path, c.graph.IsCircle path → ∃ id ∈ path, c.graph.IsNamed id) ∧
      ∀ id, c.graph.IsNamed id →
        ∃ t, ∀ depth, c.graph.spellWithin (depth + 1) (.node id) = .ok t := by
  obtain ⟨p, id, h, hgraph, hroot, hid⟩ := u.exists_traced hc
  have hnodes : ∀ id, c.graph.Ends id := hgraph ▸ h.ends_of_typesEnd hkeys hends
  have hlegible : c.graph.Legible := hgraph ▸ h.legible
  refine ⟨fun warnings info => ?_, fun path => Graph.exists_isNamed_of_isCircle hnodes,
    fun id => Graph.spellWithin_of_isNamed⟩
  rw [hroot]
  exact Graph.exists_describe hlegible hnodes hid warnings info

/-- The list of `struct node { struct node *next; void (*visit)(struct node *); };`. -/
def visitedList : TranslationUnit where
  cursors := #[
    { Cursor.empty 6 with
      kind := .struct, spelling := "node", location := ⟨some "list.c", 1, 8, false⟩,
      identity := "c:@S@node", children := [1, 2], type? := some 0, isDefinition := true },
    { Cursor.empty 6 with
      kind := .field, spelling := "next", location := ⟨some "list.c", 1, 28, false⟩,
      identity := "c:@S@node@FI@next", type? := some 2 },
    { Cursor.empty 6 with
      kind := .field, spelling := "visit", location := ⟨some "list.c", 1, 41, false⟩,
      identity := "c:@S@node@FI@visit", type? := some 3 }]
  types := #[
    { CType.invalid 6 3 with
      kind := ⟨"RECORD"⟩, spelling := "struct node", size := 16, declaration := 0 },
    { CType.invalid 6 3 with
      kind := ⟨"ELABORATED"⟩, spelling := "struct node", size := 16, namedType? := some 0 },
    { CType.invalid 6 3 with
      kind := ⟨"POINTER"⟩, spelling := "struct node *", size := 8, pointee? := some 1 },
    { CType.invalid 6 3 with
      kind := ⟨"POINTER"⟩, spelling := "void (*)(struct node *)", size := 8, pointee? := some 4 },
    { CType.invalid 6 3 with
      kind := ⟨"FUNCTIONPROTO"⟩, spelling := "void (struct node *)", size := 1,
      result? := some 5, arguments := [2] },
    { CType.invalid 6 3 with kind := ⟨"VOID"⟩, spelling := "void", size := 1 }]
  top := [0]
  remarks := []

/-- The record of a list leads back to itself through the function that visits it. -/
theorem describe_of_compilation_visitedList :
    visitedList.TypesEnd ∧ visitedList.KeysTellTypes ∧
      ∃ c, visitedList.compilation "list.c" default = .ok c ∧
        c.graph.IsCircle [4, 20, 13, 14, 16, 8] ∧
        (∀ warnings info, ∃ lines, c.graph.describe c.root warnings info = .ok lines) ∧
        (∀ path, c.graph.IsCircle path → ∃ id ∈ path, c.graph.IsNamed id) ∧
        ∀ id, c.graph.IsNamed id →
          ∃ t, ∀ depth, c.graph.spellWithin (depth + 1) (.node id) = .ok t := by
  have hends : visitedList.TypesEnd :=
    TranslationUnit.typesEnd_of_rank (fun t => [0, 0, 1, 3, 2, 0].getD t 0) (by decide) (by decide)
  have hkeys : visitedList.KeysTellTypes := TranslationUnit.keysTellTypes_of_nodup (by decide)
  obtain ⟨c, hc⟩ : ∃ c, visitedList.compilation "list.c" default = .ok c :=
    exists_eq_ok_of_isOk (by decide +kernel)
  have hcircle : (visitedList.compilation "list.c" default).toOption.all
      (fun c => decide (c.graph.IsCircle [4, 20, 13, 14, 16, 8])) = true := by decide +kernel
  rw [hc] at hcircle
  exact ⟨hends, hkeys, c, hc, of_decide_eq_true hcircle,
    TranslationUnit.describe_of_compilation hends hkeys hc⟩

end DeclGraph
