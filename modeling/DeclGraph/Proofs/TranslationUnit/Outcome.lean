import DeclGraph.Proofs.TranslationUnit.Compilation

/-!
# What was reached was converted

When a conversion is over no node is open, so the account can be read from the top: the compilation
holds what was visited, functions hold the statements in their bodies, and a node that mirrors what
it was made from refers to what stands for the parts of that.  Hence every type that was reached has
something standing for it, and every declaration a node that represents it: `Sound.found`.
-/

namespace DeclGraph

open Account

variable {s : ConversionSetting} {p : Account}

/-- What is visited has its node. -/
structure IsConverted (s : ConversionSetting) (p : Account) (t : CursorTree) : Prop where
  declaration : ∀ k, (s.unit.cursor t.id).kind.declares? = some k → ∃ id, Represents s p t.id k id
  var : (s.unit.cursor t.id).kind = .var → ∃ id, p.made id = some (.field (s.unit.cursor t.id))
  function : (s.unit.cursor t.id).kind = .function → ∃ id, p.made id = some (.function t)
  scope : (s.unit.cursor t.id).kind = .scope → ∃ id, p.made id = some (.scope t)

theorem Members.Of.isConverted {m : Members} {ts : List CursorTree} {t : CursorTree}
    (h : m.Of s p ts) (ht : t ∈ ts) : IsConverted s p t where
  declaration k hk := by
    rw [CursorKind.declares?] at hk
    split_ifs at hk with hrecord henum htypedef <;> obtain rfl := Option.some.inj hk
    · obtain ⟨id, _, hid⟩ := h.classes.exists_of_item ht hrecord
      exact ⟨id, hid⟩
    · obtain ⟨id, _, hid⟩ := h.enums.exists_of_item ht (by simp [henum])
      exact ⟨id, hid⟩
    · obtain ⟨id, _, hid⟩ := h.typedefs.exists_of_item ht (by simp [htypedef])
      exact ⟨id, hid⟩
  var hkind := by
    obtain ⟨id, _, hid⟩ := h.fields.exists_of_item ht (by simp [hkind])
    exact ⟨id, hid⟩
  function hkind := by
    obtain ⟨id, _, hid⟩ := h.functions.exists_of_item ht (by simp [hkind])
    exact ⟨id, hid⟩
  scope hkind := by
    obtain ⟨id, _, hid⟩ := h.namespaces.exists_of_item ht (by simp [hkind])
    exact ⟨id, hid⟩

/-- Something that stands for a type, or a node that represents a declaration. -/
def IsFound (s : ConversionSetting) (p : Account) : Reference → Prop
  | .type t? => ∃ v, Stands s p t? v
  | .declaration c k => ∃ id, Represents s p c k id

namespace Sound

variable (h : Sound s ∅ p)

include h

theorem mirror {id : NodeId} {o : Origin} (hmade : p.made id = some o) : Mirrors s p id o :=
  h.mirrors id o hmade (by simp)

/-- A filled record shows what its definition says. -/
theorem isFilled {id : NodeId} {d : CursorId} (hd : p.filled id = some d) :
    ∃ c, p.made id = some (.declaration c .record) ∧
      IsFilled s p (s.unit.cursor c) (s.unit.cursor d) (s.unit.cursor d).children id := by
  obtain ⟨⟨c, hmade, _⟩, _⟩ := h.filled _ _ hd
  have hm := h.mirror hmade
  simp only [Mirrors, IsDeclaration, IsRecord, hd] at hm
  exact ⟨c, hmade, hm⟩

theorem exists_component {t : TypeId} {id : NodeId} {t? : Option TypeId}
    (hmade : p.made id = some (.type t)) (ht : t? ∈ (s.unit.type t).components) :
    ∃ v, Stands s p t? v := by
  have hm := h.mirror hmade
  simp only [Mirrors, IsType, ShowsType] at hm
  unfold CType.components at ht
  cases hshape : (s.unit.type t).kind.shape with
  | invalid | elaborated | record | enum | typedef | primitive | unexposed => simp [hshape] at ht
  | pointer | array =>
    simp only [hshape, List.mem_singleton] at ht hm
    obtain ⟨element, _, helement⟩ := hm
    exact ⟨element, ht ▸ helement⟩
  | function prototyped =>
    cases prototyped with
    | false =>
      simp only [hshape, Bool.false_eq_true, if_false, List.mem_singleton] at ht hm
      obtain ⟨result, _, hresult⟩ := hm
      exact ⟨result, ht ▸ hresult⟩
    | true =>
      simp only [hshape, if_true, List.mem_cons, List.mem_map] at ht hm
      obtain ⟨result, parameters, _, hresult, hparameters⟩ := hm
      rcases ht with rfl | ⟨a, ha, rfl⟩
      · exact ⟨result, hresult⟩
      · -- the node of a parameter has the same place as its type
        obtain ⟨i, hi, rfl⟩ := List.getElem_of_mem ha
        have hlt : i < parameters.length := hparameters.length_eq ▸ hi
        have hargument := h.mirror (hparameters.get hlt hi)
        obtain ⟨type, _, htype⟩ := hargument
        exact ⟨type, htype⟩

variable {root : NodeId} {source : String} (hroot : p.made root = some (.compilation source))

include hroot

theorem isConverted {t : CursorTree} (ht : Visited s t) : IsConverted s p t := by
  induction ht with
  | top hkept hvisited =>
    obtain ⟨_, _, _, ⟨m, _, hm⟩, _⟩ := h.mirror hroot
    exact hm.isConverted (List.mem_map.2 ⟨_, List.mem_filter.2 ⟨hkept, hvisited⟩, rfl⟩)
  | inside _ hscope ht' ih =>
    obtain ⟨id, hmade⟩ := ih.scope hscope
    obtain ⟨_, ⟨m, _, hm⟩, _⟩ := h.mirror hmade
    exact hm.isConverted ht'

theorem exists_statement {t : CursorTree} (ht : InBody s t) :
    ∃ id, p.made id = some (.statement t) := by
  induction ht with
  | body hf hfunction hblock hkind ht =>
    obtain ⟨id, hmade⟩ := (h.isConverted hroot hf).function hfunction
    obtain ⟨_, _, _, bodies, _, _, _, _, _, hbodies, _⟩ := h.mirror hmade
    obtain ⟨ids, _, hids⟩ := hbodies.exists_of_item hblock (by simp [hkind])
    obtain ⟨i, hi, rfl⟩ := List.getElem_of_mem ht
    have hlt : i < ids.length := hids.length_eq ▸ hi
    exact ⟨_, hids.get hlt hi⟩
  | inside _ ht' ih =>
    obtain ⟨id, hmade⟩ := ih
    obtain ⟨ids, _, hids⟩ := h.mirror hmade
    obtain ⟨i, hi, rfl⟩ := List.getElem_of_mem ht'
    have hlt : i < ids.length := hids.length_eq ▸ hi
    exact ⟨_, hids.get hlt hi⟩

/-- What was reached was converted. -/
theorem found {r : Reference} (hr : Reached s p r) : IsFound s p r := by
  -- every way of reaching ends at a node that mirrors its origin, and a field shows what it found
  induction hr with
  | visited ht hk => exact (h.isConverted hroot ht).declaration _ hk
  | var ht hkind =>
    obtain ⟨id, hmade⟩ := (h.isConverted hroot ht).var hkind
    obtain ⟨_, type, _, _, _, htype, _⟩ := h.mirror hmade
    exact ⟨type, htype⟩
  | result ht hkind =>
    obtain ⟨id, hmade⟩ := (h.isConverted hroot ht).function hkind
    obtain ⟨_, result, _, _, _, _, _, hresult, _⟩ := h.mirror hmade
    exact ⟨result, hresult⟩
  | parameter ht hkind ha =>
    obtain ⟨id, hmade⟩ := (h.isConverted hroot ht).function hkind
    obtain ⟨_, _, parameters, _, _, _, _, _, hparameters, _⟩ := h.mirror hmade
    obtain ⟨i, hi, rfl⟩ := List.getElem_of_mem ha
    have hlt : i < parameters.length := hparameters.length_eq ▸ hi
    obtain ⟨_, type, _, _, htype⟩ := h.mirror (hparameters.get hlt hi)
    exact ⟨type, htype⟩
  | expression ht hexpr =>
    obtain ⟨id, hmade⟩ := h.exists_statement hroot ht
    obtain ⟨_, ⟨_, type, _, _, htype⟩, _⟩ := h.mirror hmade
    rw [if_pos hexpr] at htype
    exact ⟨type, htype⟩
  | named _ hshape ih =>
    obtain ⟨v, hv⟩ := ih
    cases hv with
    | invalid hshape' => exact absurd (hshape.symm.trans hshape') (by simp)
    | elaborated _ hv => exact ⟨v, hv⟩
    | declared hk _ => simp [hshape, TypeShape.declares?] at hk
    | structural hs _ => simp [hshape, TypeShape.isStructural] at hs
  | declared _ hk ih =>
    obtain ⟨v, hv⟩ := ih
    cases hv with
    | invalid hshape | elaborated hshape _ => simp [hshape, TypeShape.declares?] at hk
    | declared hk' hid => exact ⟨_, Option.some.inj (hk'.symm.trans hk) ▸ hid⟩
    | structural hs _ => simp [TypeShape.isStructural_of_declares? hk] at hs
  | component _ hmade ht _ => exact h.exists_component hmade ht
  | constants _ hmade _ =>
    obtain ⟨_, type, _, _, _, htype, _⟩ := h.mirror hmade
    exact ⟨type, htype⟩
  | aliased _ hmade _ =>
    obtain ⟨_, type, _, _, htype⟩ := h.mirror hmade
    exact ⟨type, htype⟩
  | field _ hd hchild hkind _ =>
    obtain ⟨c, _, _, _, _, _, hm⟩ := h.isFilled hd
    obtain ⟨id, _, hmade⟩ := hm.fields.exists_of_item hchild (by simp [hkind])
    obtain ⟨_, type, _, _, _, htype, _⟩ := h.mirror hmade
    exact ⟨type, htype⟩
  | member _ hd hchild hk hne _ =>
    obtain ⟨c, _, _, _, _, _, hm⟩ := h.isFilled hd
    rw [CursorKind.declares?] at hk
    split_ifs at hk with hrecord henum htypedef <;> obtain rfl := Option.some.inj hk
    · obtain ⟨id, _, hid⟩ := hm.classes.exists_of_item hchild hrecord
      exact ⟨id, hid⟩
    · obtain ⟨id, _, hid⟩ := hm.enums.exists_of_item hchild (by simp [henum])
      exact ⟨id, hid⟩
    · exact absurd rfl hne

end Sound

/-! ### Accounts of compilations -/

/-- An account of how a compilation came about: its tables agree with what its nodes were made from,
everything in it was reached, and every node mirrors what it was made from. -/
structure Explains (s : ConversionSetting) (source : String) (c : Compilation) (p : Account) : Prop
    extends Consistent s p where
  graph : c.graph = p.graph
  root : ∃ id, c.root = .node id ∧ p.made id = some (.compilation source)
  mirrors : ∀ id o, p.made id = some o → Mirrors s p id o

/-- Every compilation can be accounted for. -/
theorem TranslationUnit.exists_explains {u : TranslationUnit} {source : String}
    {options : ParseOptions} {c : Compilation} (hkeys : u.KeysTellKinds)
    (hc : u.compilation source options = .ok c) : ∃ p, Explains ⟨u, options⟩ source c p := by
  unfold compilation at hc
  cases hrun : (Convert.convertUnit ⟨u, options⟩ source).run .start with
  | error e => simp [hrun] at hc
  | ok result =>
    obtain ⟨root, σ⟩ := result
    obtain ⟨p, rfl, h, hroot⟩ := exists_account (s := ⟨u, options⟩) hkeys hrun
    rw [hrun] at hc
    obtain rfl := Except.ok.inj hc
    exact ⟨p, h.toConsistent, rfl, ⟨root, rfl, hroot⟩, fun id o ho => h.mirror ho⟩

namespace Explains

variable {source : String} {c : Compilation} (h : Explains s source c p)

include h

theorem sound : Sound s ∅ p := ⟨h.toConsistent, fun id o ho _ => h.mirrors id o ho, by simp⟩

/-- What was reached was converted. -/
theorem found {r : Reference} (hr : Reached s p r) : IsFound s p r := by
  obtain ⟨root, _, hroot⟩ := h.root
  exact h.sound.found hroot hr

/-- A node of a kind was made from something of this kind. -/
theorem exists_made {id : NodeId} {k : Kind} (hk : (p.graph.node id).isKind k) :
    ∃ o, p.made id = some o ∧ o.kind? s.unit = some k := by
  have hlt : id < p.graph.size := Graph.lt_size_of_node_ne fun habsent => by
    rw [habsent] at hk
    exact absurd hk (by simp [Node.isKind, Node.absent])
  obtain ⟨o, ho⟩ := h.told id hlt
  obtain ⟨k', hk', hshape⟩ := (h.mirrors id o ho).shape
  have heq : k' = k := by simpa [Node.isKind, hshape] using hk
  exact ⟨o, ho, heq ▸ hk'⟩

/-- A record or an enumeration was made from a declaration. -/
theorem exists_declaration {id : NodeId} {k : Kind} (hk : (p.graph.node id).isKind k)
    (hkind : k = .record ∨ k = .enum) : ∃ d, p.made id = some (.declaration d k) := by
  obtain ⟨o, ho, hok⟩ := h.exists_made hk
  cases o with
  | declaration d k' => exact ⟨d, Option.some.inj hok ▸ ho⟩
  | type t =>
    rcases hkind with rfl | rfl <;>
      exact absurd hok (TypeShape.nodeKind?_ne (by decide))
  | _ => rcases hkind with rfl | rfl <;> simp [Origin.kind?] at hok

theorem exists_compilation {id : NodeId} (hk : (p.graph.node id).isKind .compilation) :
    ∃ source, p.made id = some (.compilation source) := by
  obtain ⟨o, ho, hok⟩ := h.exists_made hk
  cases o with
  | compilation source => exact ⟨source, ho⟩
  | type t => exact absurd hok (TypeShape.nodeKind?_ne (by decide))
  | declaration d k =>
    obtain rfl := Option.some.inj hok
    exact (h.mirrors _ _ ho).elim
  | _ => simp [Origin.kind?] at hok

theorem exists_scope {id : NodeId} (hk : (p.graph.node id).isKind .scope) :
    ∃ t, p.made id = some (.scope t) := by
  obtain ⟨o, ho, hok⟩ := h.exists_made hk
  cases o with
  | scope t => exact ⟨t, ho⟩
  | type t => exact absurd hok (TypeShape.nodeKind?_ne (by decide))
  | declaration d k =>
    obtain rfl := Option.some.inj hok
    exact (h.mirrors _ _ ho).elim
  | _ => simp [Origin.kind?] at hok

/-- A node of a kind of types was made from a type. -/
theorem exists_type {id : NodeId} {k : Kind} (hkind : k ∈ Kind.structural)
    (hk : (p.graph.node id).isKind k) : ∃ t, p.made id = some (.type t) := by
  obtain ⟨o, ho, hok⟩ := h.exists_made hk
  cases o with
  | type t => exact ⟨t, ho⟩
  | declaration d k' =>
    obtain rfl := Option.some.inj hok
    simp only [Kind.structural, List.mem_cons, List.not_mem_nil, or_false] at hkind
    rcases hkind with rfl | rfl | rfl | rfl | rfl <;> exact (h.mirrors _ _ ho).elim
  | _ =>
    obtain rfl := Option.some.inj hok
    exact absurd hkind (by decide)

variable {k : Kind} {d d' : CursorId} {id id' : NodeId}

/-- What was made from a declaration represents it. -/
theorem represents (hmade : p.made id = some (.declaration d k)) : Represents s p d k id := by
  obtain ⟨hlisted, _, hreached⟩ := h.declared _ _ _ hmade
  obtain ⟨id', hid'⟩ := h.found hreached
  exact Option.some.inj (hid'.1.symm.trans hlisted) ▸ hid'

/-- One key, one node. -/
theorem represents_eq_iff (hd : Represents s p d k id) (hd' : Represents s p d' k id') :
    id = id' ↔ (s.unit.cursor d).key = (s.unit.cursor d').key := by
  constructor
  · rintro rfl
    obtain ⟨c, _, hmade, hkey⟩ := h.declarations _ _ hd.1
    obtain ⟨c', _, hmade', hkey'⟩ := h.declarations _ _ hd'.1
    obtain ⟨rfl, -⟩ := Origin.declaration.inj (Option.some.inj (hmade.symm.trans hmade'))
    exact hkey.symm.trans hkey'
  · intro hkey
    exact Option.some.inj
      (hd.1.symm.trans ((congrArg (Entries.get? · p.declarations) hkey).trans hd'.1))

end Explains

end DeclGraph
