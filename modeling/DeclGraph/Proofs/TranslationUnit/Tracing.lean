import DeclGraph.Proofs.Graph.Reading
import DeclGraph.Proofs.TranslationUnit.Declarations
import DeclGraph.Proofs.TranslationUnit.Types

/-!
# Where the nodes of types come from

A conversion builds legible graphs (`Graph.Legible`), and what the node of a type leads to stands
for a component of the type that it was made from.  `Traced s p` says so of an account: each node of
a type was made from one, each parameter that a type tells of from an argument, and they lead to
what `Reaches` tells.  Nodes of types are looked up by kind and spelling, so one may be taken for a
type that it was not made from (`TakenFor`).

`Tracing s p x Q` speaks of a step that goes on from a traced account to a traced one and recalls
kinds and origins on the way.  The functions that convert types and declarations are taken together,
by induction on the fuel (`AllTrace`), then statements, functions, and what stands in containers.
Nothing is asked of the unit: the keys of its declarations need not tell their kinds, types that are
written alike need not be the same, and following types need not come to an end.
-/

namespace DeclGraph

/-! ### Legible graphs under construction -/

/-- Whether a value without nodes suits a place. -/
def Content.takes : Content → Value → Bool
  | .plain, .scalar _ | .plain, .tuple [] => true
  | .texts, .scalar .null | .link _, .scalar .null => true
  | .nodes _, .list [] => true
  | _, _ => false

/-- What a field holds when nothing is said suits its place. -/
theorem Kind.exists_usual {k : Kind} {name : String} {c : Content} (h : (name, c) ∈ k.read) :
    ∃ v, Entries.get? name k.fields = some v ∧ c.takes v := by
  have hall : (k.read.all fun e => (Entries.get? e.1 k.fields).any e.2.takes) = true := by
    cases k <;> rfl
  exact Option.any_eq_true _ _ |>.1 (List.all_eq_true.1 hall _ h)

/-- A field of a new node has the value that was given, or the usual one. -/
theorem Node.get?_make (k : Kind) (given : List (String × Value)) (name : String) :
    (make k given).get? name =
      (Entries.get? name k.fields).map fun usual => (Entries.get? name given).getD usual := by
  rw [get?, make]
  induction k.fields with
  | nil => rfl
  | cons e rest ih =>
    obtain ⟨key, usual⟩ := e
    simp only [List.map_cons, Entries.get?, ih]
    split_ifs with hkey
    · rw [hkey, Option.map_some]
    · rfl

namespace Graph

variable {g g' : Graph} {id m : NodeId} {k : Kind} {c : Content} {v : Value} {name : String}
  {given : List (String × Value)}

@[simp]
theorem fits_plain_scalar (x : Scalar) : g.Fits .plain (.scalar x) := Value.not_leadsTo_scalar x

@[simp]
theorem fits_plain_text (x : String) : g.Fits .plain (.text x) := fits_plain_scalar _

@[simp]
theorem fits_plain_int (n : Int) : g.Fits .plain (.int n) := fits_plain_scalar _

@[simp]
theorem fits_plain_text? (s : Option String) : g.Fits .plain (.text? s) := by
  cases s with
  | none => exact fits_plain_scalar _
  | some s => exact fits_plain_scalar _

theorem fits_plain_initialValue (u : TranslationUnit) (c : Cursor) :
    g.Fits .plain (u.initialValue c) := by
  unfold TranslationUnit.initialValue
  split
  · split
    · exact fits_plain_scalar _
    · exact fits_plain_scalar _
  · exact fits_plain_scalar _

theorem fits_plain_markers (u : TranslationUnit) (c : Cursor) : g.Fits .plain (u.markers c) := by
  intro m
  simp [TranslationUnit.markers, Value.LeadsTo, Value.HasNode, Value.items?, Value.text]

theorem fits_nodes {ids : List NodeId} (h : ∀ m ∈ ids, (g.node m).isKind k) :
    g.Fits (.nodes k) (.nodes ids) := ⟨ids, rfl, h⟩

theorem fits_of_takes (h : c.takes v) : g.Fits c v ∧ ∀ m, ¬v.LeadsTo m := by
  unfold Content.takes at h
  split at h
  · exact ⟨Value.not_leadsTo_scalar _, Value.not_leadsTo_scalar _⟩
  · exact ⟨fun m => by simp [Value.LeadsTo, Value.HasNode, Value.items?],
      fun m => by simp [Value.LeadsTo, Value.HasNode, Value.items?]⟩
  · exact ⟨.inl rfl, Value.not_leadsTo_scalar _⟩
  · exact ⟨.inl rfl, Value.not_leadsTo_scalar _⟩
  · exact ⟨⟨[], rfl, by simp⟩, fun m => by simp [Value.LeadsTo, Value.HasNode, Value.items?]⟩
  · exact absurd h (by simp)

theorem Fits.mono (hkind : ∀ id k, (g.node id).isKind k → (g'.node id).isKind k)
    (h : g.Fits c v) : g'.Fits c v := by
  cases c with
  | plain | texts => exact h
  | link kinds => exact h.imp_right fun ⟨m, hv, k, hk, hm⟩ => ⟨m, hv, k, hk, hkind m k hm⟩
  | nodes kind => exact h.imp fun ids ⟨hv, hids⟩ => ⟨hv, fun m hm => hkind m _ (hids m hm)⟩

/-- What is given for a new node is what the places in it ask for. -/
def Suits (g : Graph) (k : Kind) (given : List (String × Value)) : Prop :=
  ∀ e ∈ given, ∀ c, (e.1, c) ∈ k.read → g.Fits c e.2

namespace Legible

variable (h : g.Legible)

include h

theorem add (hgiven : g.Suits k given) : (g.add (.make k given)).Legible := by
  intro id k' hid name c hc
  have hkind := (Abides.add g (.make k given)).kind
  rw [node_add] at hid ⊢
  split_ifs at hid ⊢
  · obtain rfl := Node.isKind_make.1 hid
    obtain ⟨usual, husual, htakes⟩ := Kind.exists_usual hc
    rw [Node.get?_make, husual]
    refine ⟨_, rfl, ?_⟩
    cases hfound : Entries.get? name given with
    | none => exact (fits_of_takes htakes).1
    | some v => exact (hgiven _ (Entries.mem_of_get? hfound) c hc).mono hkind
  · obtain ⟨v, hv, hfits⟩ := h id k' hid name c hc
    exact ⟨v, hv, hfits.mono hkind⟩

theorem setField (hid : (g.node id).isKind k) (hv : ∀ c, (name, c) ∈ k.read → g.Fits c v) :
    (g.setField id name v).Legible := by
  intro m k' hm other c hc
  have hkind : ∀ m k, (g.node m).isKind k → ((g.setField id name v).node m).isKind k :=
    fun m k hm => (isKind_setField ..).trans hm
  rw [isKind_setField] at hm
  obtain ⟨w, hw, hfits⟩ := h m k' hm other c hc
  rw [node_setField]
  split_ifs with heq
  · rw [Node.get?_set]
    split_ifs with hname
    · subst heq hname
      obtain rfl := Node.eq_of_isKind hid hm
      exact ⟨v, by rw [hw]; rfl, (hv c hc).mono hkind⟩
    · exact ⟨w, hw, hfits.mono hkind⟩
  · exact ⟨w, hw, hfits.mono hkind⟩

end Legible

/-- A new node leads to what was given for the fields that are read. -/
theorem exists_of_leads_add (h : (g.add (.make k given)).Leads g.size m) :
    ∃ e ∈ given, (∃ c, (e.1, c) ∈ k.read) ∧ e.2.LeadsTo m := by
  obtain ⟨k', hk', ⟨name, c⟩, hc, hm⟩ := h
  rw [node_add_size] at hk' hm
  obtain rfl := Node.isKind_make.1 hk'
  obtain ⟨usual, husual, htakes⟩ := Kind.exists_usual hc
  dsimp only at hm
  rw [Node.get, Node.get?_make, husual, Option.map_some, Option.getD_some] at hm
  cases hfound : Entries.get? name given with
  | none =>
    rw [hfound] at hm
    exact absurd hm ((fits_of_takes (g := g) htakes).2 m)
  | some v =>
    rw [hfound] at hm
    exact ⟨_, Entries.mem_of_get? hfound, ⟨c, hc⟩, hm⟩

theorem leads_of_add {n : Node} (hne : id ≠ g.size) (h : (g.add n).Leads id m) : g.Leads id m := by
  rwa [Leads, node_add, if_neg hne] at h

/-- A node leads to what it led to before, or to what was put into one of its fields. -/
theorem leads_of_setField {q : NodeId} (h : (g.setField id name v).Leads q m) :
    g.Leads q m ∨ q = id ∧ v.LeadsTo m := by
  obtain ⟨k, hk, e, he, hm⟩ := h
  rw [isKind_setField] at hk
  rw [node_setField] at hm
  split_ifs at hm with heq
  · rw [Node.get, Node.get?_set] at hm
    split_ifs at hm
    · cases hfound : (g.node q).get? e.1 with
      | none =>
        rw [hfound] at hm
        exact absurd hm (Value.not_leadsTo_scalar _ m)
      | some w =>
        rw [hfound] at hm
        exact .inr ⟨heq.symm, hm⟩
    · exact .inl ⟨k, hk, e, he, hm⟩
  · exact .inl ⟨k, hk, e, he, hm⟩

end Graph

/-! ### What nodes are taken for -/

/-- A later account, which recalls kinds and origins. -/
structure Recalls (p p' : Account) : Prop where
  kind : ∀ id k, (p.graph.node id).isKind k → (p'.graph.node id).isKind k
  made : ∀ id o, p.made id = some o → p'.made id = some o

namespace Recalls

variable {p p' p'' : Account}

theorem refl (p : Account) : Recalls p p := ⟨fun _ _ => id, fun _ _ => id⟩

theorem trans (h : Recalls p p') (h' : Recalls p' p'') : Recalls p p'' :=
  ⟨fun id k hk => h'.kind id k (h.kind id k hk), fun id o ho => h'.made id o (h.made id o ho)⟩

end Recalls

section

variable (s : ConversionSetting) (p : Account)

/-- A node is taken for a type: it has a name, or was made from a type that is written like it. -/
inductive TakenFor : Option TypeId → NodeId → Prop
  | named {a : Option TypeId} {m : NodeId} (hm : p.graph.IsNamed m) : TakenFor a m
  | structural {a : Option TypeId} {t t₀ : TypeId} {m : NodeId} (ha : s.unit.Resolves a (some t))
      (hm : p.made m = some (.type t₀)) (hkey : (s.unit.type t₀).key = (s.unit.type t).key) :
      TakenFor a m

/-- A value is taken for a type, or it is nothing. -/
def Serves (a : Option TypeId) (v : Value) : Prop := v = .null ∨ ∃ m, v = .node m ∧ TakenFor s p a m

/-- What a node may lead to, by what it was made from. -/
inductive Reaches : Origin → NodeId → Prop
  /-- From a type to its components. -/
  | component {t : TypeId} {a : Option TypeId} {m : NodeId} (ha : a ∈ (s.unit.type t).components)
      (hm : TakenFor s p a m) : Reaches (.type t) m
  /-- From a type to its parameters. -/
  | parameter {t a : TypeId} {m : NodeId} (ha : some a ∈ (s.unit.type t).components)
      (hm : p.made m = some (.argument a)) : Reaches (.type t) m
  /-- From a parameter to its type. -/
  | argument {a : TypeId} {m : NodeId} (hm : TakenFor s p (some a) m) : Reaches (.argument a) m

/-- Types and the parameters that they tell of can be traced to what they were made from. -/
structure Traced : Prop where
  legible : p.graph.Legible
  /-- What was made is of the kind for it. -/
  kinds : ∀ id o, p.made id = some o →
    ∃ k ∈ .parameter :: Kind.structural, o.kind? s.unit = some k ∧ (p.graph.node id).isKind k
  /-- Of all nodes of types it is known what they were made from. -/
  told : ∀ id, ∀ k ∈ Kind.structural, (p.graph.node id).isKind k → ∃ t, p.made id = some (.type t)
  /-- What is remembered for a type was made from one that is written like it. -/
  types : ∀ key id, Entries.get? key p.types = some id →
    ∃ t, p.made id = some (.type t) ∧ (s.unit.type t).key = key
  reaches : ∀ id o m, p.made id = some o → p.graph.Leads id m → Reaches s p o m

end

variable {s : ConversionSetting} {p p' p'' : Account} {a : Option TypeId} {t : TypeId} {o : Origin}
  {id m : NodeId} {k : Kind} {v : Value} {name : String}

theorem TypeShape.mem_structural {shape : TypeShape} (h : shape.nodeKind? = some k) :
    k ∈ Kind.structural := by
  by_contra hk
  exact TypeShape.nodeKind?_ne hk h

theorem TakenFor.mono (h : TakenFor s p a m) (hp : Recalls p p') : TakenFor s p' a m := by
  cases h with
  | named hm => exact .named (hm.imp fun k hk => ⟨hk.1, hp.kind m k hk.2⟩)
  | structural ha hm hkey => exact .structural ha (hp.made m _ hm) hkey

theorem Serves.mono (h : Serves s p a v) (hp : Recalls p p') : Serves s p' a v :=
  h.imp_right fun ⟨m, hv, hm⟩ => ⟨m, hv, hm.mono hp⟩

theorem Reaches.mono (h : Reaches s p o m) (hp : Recalls p p') : Reaches s p' o m := by
  cases h with
  | component ha hm => exact .component ha (hm.mono hp)
  | parameter ha hm => exact .parameter ha (hp.made m _ hm)
  | argument hm => exact .argument (hm.mono hp)

/-- What serves for a type leads to what is taken for it. -/
theorem Serves.takenFor (h : Serves s p a v) (hm : v.LeadsTo m) : TakenFor s p a m := by
  rcases h with rfl | ⟨m', rfl, h⟩
  · exact absurd hm (Value.not_leadsTo_scalar _ m)
  · exact Value.leadsTo_node.1 hm ▸ h

/-- What serves for a longer name of a type serves for the type. -/
theorem Serves.elaborated (hshape : (s.unit.type t).kind.shape = .elaborated)
    (h : Serves s p (s.unit.type t).namedType? v) : Serves s p (some t) v := by
  refine h.imp_right fun ⟨m, hv, hm⟩ => ⟨m, hv, ?_⟩
  cases hm with
  | named hm => exact .named hm
  | structural ha hm hkey => exact .structural (.elaborated hshape ha) hm hkey

/-- What serves for a type may stand where a type is asked for. -/
theorem Serves.fits (h : Serves s p a v) (hp : Traced s p) : p.graph.Fits (.link Kind.types) v := by
  refine h.imp_right fun ⟨m, hv, hm⟩ => ⟨m, hv, ?_⟩
  cases hm with
  | named hm => exact hm.imp fun k hk => ⟨List.mem_append_right _ hk.1, hk.2⟩
  | structural _ hm _ =>
    obtain ⟨k, -, hkind, hid⟩ := hp.kinds m _ hm
    exact ⟨k, List.mem_append_left _ (TypeShape.mem_structural hkind), hid⟩

/-- An account goes on to another one in which nodes can be traced too. -/
structure Traces (s : ConversionSetting) (p p' : Account) : Prop extends Recalls p p' where
  traced : Traced s p'

namespace Traces

theorem refl (h : Traced s p) : Traces s p p := ⟨.refl p, h⟩

theorem trans (h : Traces s p p') (h' : Traces s p' p'') : Traces s p p'' :=
  ⟨h.toRecalls.trans h'.toRecalls, h'.traced⟩

end Traces

namespace Traced

variable (h : Traced s p)

include h

theorem lt_size (hid : p.made id = some o) : id < p.graph.size := by
  obtain ⟨k, -, -, hkind⟩ := h.kinds id o hid
  refine Graph.lt_size_of_node_ne fun habsent => ?_
  rw [habsent] at hkind
  exact absurd hkind (by simp [Node.isKind, Node.absent])

theorem isKind (hmade : p.made id = some o) (ho : o.kind? s.unit = some k) :
    (p.graph.node id).isKind k := by
  obtain ⟨k', -, hkind, hid⟩ := h.kinds id o hmade
  exact Option.some.inj (hkind.symm.trans ho) ▸ hid

/-- Other nodes than types and parameters are not told of. -/
theorem made_eq_none (hid : (p.graph.node id).isKind k) (hk : k ∉ .parameter :: Kind.structural) :
    p.made id = none := by
  cases hmade : p.made id with
  | none => rfl
  | some o =>
    obtain ⟨k', hk', -, hid'⟩ := h.kinds id o hmade
    exact absurd (Node.eq_of_isKind hid' hid ▸ hk') hk

/-- A new node. -/
theorem enter {given : List (String × Value)} {o? : Option Origin} (hgiven : p.graph.Suits k given)
    (hkinds : ∀ o ∈ o?, k ∈ .parameter :: Kind.structural ∧ o.kind? s.unit = some k)
    (htold : k ∈ Kind.structural → ∃ t, o? = some (.type t))
    (hreaches : ∀ o ∈ o?, ∀ e ∈ given, (∃ c, (e.1, c) ∈ k.read) → ∀ m, e.2.LeadsTo m →
      Reaches s p o m) : Traces s p (p.enter (.make k given) o?) := by
  -- the nodes that were there keep their kinds and origins
  have hrecalls : Recalls p (p.enter (.make k given) o?) :=
    ⟨(Graph.Abides.add p.graph (.make k given)).kind,
      fun id o hid => (if_neg (h.lt_size hid).ne).trans hid⟩
  refine ⟨hrecalls, h.legible.add hgiven, fun id o hid => ?_, fun id k' hk' hid => ?_,
    fun key id hid => ?_, fun id o m hid hm => ?_⟩
  · have hid' : (if id = p.graph.size then o? else p.made id) = some o := hid
    split_ifs at hid' with hnew
    · refine ⟨k, (hkinds o hid').1, (hkinds o hid').2, ?_⟩
      exact (congrArg (·.isKind k) (hnew ▸ Graph.node_add_size _ _)).trans (Node.isKind_make.2 rfl)
    · obtain ⟨k', hk', hkind, hid⟩ := h.kinds id o hid'
      exact ⟨k', hk', hkind, hrecalls.kind id k' hid⟩
  · by_cases hnew : id = p.graph.size
    · have hmade : (p.enter (.make k given) o?).made id = o? := if_pos hnew
      have hid' : (Node.make k given).isKind k' := by
        rw [← Graph.node_add_size p.graph (.make k given), ← hnew]
        exact hid
      rw [hmade]
      exact htold (Node.isKind_make.1 hid' ▸ hk')
    · have hid' : ((p.graph.add (.make k given)).node id).isKind k' := hid
      rw [Graph.node_add, if_neg hnew] at hid'
      exact (h.told id k' hk' hid').imp fun t ht => hrecalls.made id _ ht
  · exact (h.types key id hid).imp fun t ht => ⟨hrecalls.made id _ ht.1, ht.2⟩
  · have hid' : (if id = p.graph.size then o? else p.made id) = some o := hid
    split_ifs at hid' with hnew
    · obtain ⟨e, he, hread, hm⟩ := Graph.exists_of_leads_add (hnew ▸ hm)
      exact (hreaches o hid' e he hread m hm).mono hrecalls
    · exact (h.reaches id o m hid' (Graph.leads_of_add hnew hm)).mono hrecalls

/-- A new node that is neither a type nor tells of one. -/
theorem enterOther {given : List (String × Value)} (hk : k ∉ Kind.structural)
    (hgiven : p.graph.Suits k given) : Traces s p (p.enter (.make k given) none) :=
  h.enter hgiven (fun _ ho => absurd ho (Option.not_mem_none _)) (fun hk' => absurd hk' hk)
    fun _ ho => absurd ho (Option.not_mem_none _)

/-- Another value in a field. -/
theorem setField (hid : (p.graph.node id).isKind k)
    (hv : ∀ c, (name, c) ∈ k.read → p.graph.Fits c v)
    (hreaches : ∀ o, p.made id = some o → ∀ m, v.LeadsTo m → Reaches s p o m) :
    Traces s p (p.setField id name v) := by
  have hrecalls : Recalls p (p.setField id name v) :=
    ⟨fun m k hm => (Graph.isKind_setField ..).trans hm, fun _ _ hm => hm⟩
  refine ⟨hrecalls, h.legible.setField hid hv, fun m o hm => ?_, fun m k hk hm => ?_, h.types,
    fun q o m hq hm => ?_⟩
  · obtain ⟨k', hk', hkind, hm⟩ := h.kinds m o hm
    exact ⟨k', hk', hkind, hrecalls.kind m k' hm⟩
  · exact h.told m k hk ((Graph.isKind_setField ..).symm.trans hm)
  · rcases Graph.leads_of_setField hm with hold | ⟨rfl, hnew⟩
    · exact (h.reaches q o m hq hold).mono hrecalls
    · exact (hreaches o hq m hnew).mono hrecalls

/-- What is remembered of types has to be traced too, what is remembered of declarations has not. -/
theorem remember (hgraph : p'.graph = p.graph) (hmade : p'.made = p.made)
    (htypes : ∀ key id, Entries.get? key p'.types = some id →
      ∃ t, p'.made id = some (.type t) ∧ (s.unit.type t).key = key) : Traces s p p' := by
  have hrecalls : Recalls p p' := ⟨fun id k hid => hgraph ▸ hid, fun id o hid => hmade ▸ hid⟩
  refine ⟨hrecalls, hgraph ▸ h.legible, fun id o hid => ?_, fun id k hk hid => ?_, htypes,
    fun id o m hid hm => ?_⟩
  · rw [hgraph]
    exact h.kinds id o (hmade ▸ hid)
  · rw [hmade]
    exact h.told id k hk (hgraph ▸ hid)
  · exact (h.reaches id o m (hmade ▸ hid) (hgraph ▸ hm)).mono hrecalls

end Traced

/-! ### Steps -/

/-- A step goes on from an account in which nodes can be traced to another one. -/
def Tracing {α : Type} (s : ConversionSetting) (p : Account) (x : Convert α)
    (Q : α → Account → Prop) : Prop :=
  Traced s p → Leaves p x fun b p' => Traces s p p' ∧ Q b p'

namespace Tracing

open DeclGraph.Convert

section

variable {α β : Type} {x : Convert α} {f : α → Convert β} {b w : α}
  {Q Q' : α → Account → Prop} {R : β → Account → Prop}

theorem pure (h : Q b p) : Tracing s p (pure b) Q := fun hp => .pure ⟨.refl hp, h⟩

theorem throw (e : Fault) : Tracing s p (throw e) Q := fun _ => .throw e

theorem of_traced (h : Traced s p → Tracing s p x Q) : Tracing s p x Q := fun hp => h hp hp

theorem bind (hx : Tracing s p x Q)
    (hf : ∀ b p', Traces s p p' → Q b p' → Tracing s p' (f b) R) : Tracing s p (x >>= f) R :=
  fun hp => (hx hp).bind fun b p₁ ⟨h₁, hb⟩ => (hf b p₁ h₁ hb h₁.traced).mono
    fun _ _ ⟨h₂, hc⟩ => ⟨h₁.trans h₂, hc⟩

theorem mono (hx : Tracing s p x Q) (h : ∀ b p', Traces s p p' → Q b p' → Q' b p') :
    Tracing s p x Q' :=
  fun hp => (hx hp).mono fun b p₁ ⟨h₁, hb⟩ => ⟨h₁, h b p₁ h₁ hb⟩

theorem reads_bind (hx : Reads x w) (hf : Tracing s p (f w) R) : Tracing s p (x >>= f) R :=
  fun hp => .reads_bind hx (hf hp)

theorem node_bind {f : Node → Convert β} (hf : Tracing s p (f (p.graph.node id)) R) :
    Tracing s p (node id >>= f) R := hf

theorem declared_bind {key : String} {f : Option NodeId → Convert β}
    (hf : Tracing s p (f ((Entries.get? key p.declarations).filter
      fun id => (p.graph.node id).isKind k)) R) : Tracing s p (declared? key k >>= f) R := hf

theorem converted_bind {key : TypeKind × String} {f : Option NodeId → Convert β}
    (hf : Tracing s p (f (Entries.get? key p.types)) R) : Tracing s p (converted? key >>= f) R := hf

theorem declare_bind {key : String} {f : Unit → Convert β}
    (hf : Tracing s { p with declarations := Entries.put key id p.declarations } (f ()) R) :
    Tracing s p (declare key id >>= f) R := by
  intro hp
  have hdeclared : Traces s p { p with declarations := Entries.put key id p.declarations } :=
    hp.remember rfl rfl hp.types
  exact (hf hdeclared.traced).mono fun _ _ ⟨h₁, hb⟩ => ⟨hdeclared.trans h₁, hb⟩

/-- One step for each member of a list. -/
theorem mapM {f : α → Convert β} {F : α → β → Account → Prop} {bs : List α}
    (hmono : ∀ b c p p', F b c p → Traces s p p' → F b c p')
    (hf : ∀ b p, Tracing s p (f b) (F b)) :
    Tracing s p (bs.mapM f) fun cs p' => ∀ c ∈ cs, ∃ b ∈ bs, F b c p' := by
  induction bs generalizing p with
  | nil => exact .pure fun c hc => absurd hc List.not_mem_nil
  | cons b rest ih =>
    rw [List.mapM_cons]
    refine (hf b p).bind fun c p₁ _ hc => ih.bind fun cs _ h₂ hcs => .pure fun c' hc' => ?_
    rcases List.mem_cons.1 hc' with rfl | hc'
    · exact ⟨b, List.mem_cons_self, hmono _ _ _ _ hc h₂⟩
    · obtain ⟨b', hb', hF⟩ := hcs c' hc'
      exact ⟨b', List.mem_cons_of_mem _ hb', hF⟩

/-- One step for each member of a list, in each of which a node keeps its kind. -/
theorem forM {f : α → Convert Unit} (hid : (p.graph.node id).isKind k) (bs : List α)
    (hf : ∀ b p, (p.graph.node id).isKind k → Tracing s p (f b) fun _ _ => True) :
    Tracing s p (bs.forM f) fun _ _ => True := by
  induction bs generalizing p with
  | nil => exact .pure trivial
  | cons b rest ih => exact (hf b p hid).bind fun _ p₁ h₁ _ => ih (h₁.kind id k hid)

/-- One more node of a kind. -/
theorem cons {x : Convert NodeId} {xs : Convert (List NodeId)}
    (hx : Tracing s p x fun id p' => (p'.graph.node id).isKind k)
    (hxs : ∀ p, Tracing s p xs fun ids p' => ∀ id ∈ ids, (p'.graph.node id).isKind k) :
    Tracing s p (do return (← x) :: (← xs)) fun ids p' =>
      ∀ id ∈ ids, (p'.graph.node id).isKind k :=
  hx.bind fun id p₁ _ hid => (hxs p₁).bind fun _ _ h₂ hids =>
    .pure (List.forall_mem_cons.2 ⟨h₂.kind id k hid, hids⟩)

/-- A new node for another one, which keeps its kind until the new one is there. -/
theorem listing {k' : Kind} {x : Convert NodeId} {f : NodeId → Convert Unit}
    (hid : (p.graph.node id).isKind k)
    (hx : Tracing s p x fun item p' => (p'.graph.node item).isKind k')
    (hf : ∀ item p', (p'.graph.node id).isKind k → (p'.graph.node item).isKind k' →
      Tracing s p' (f item) fun _ _ => True) : Tracing s p (x >>= f) fun _ _ => True :=
  hx.bind fun item p₁ h₁ hitem => hf item p₁ (h₁.kind id k hid) hitem

/-- A node keeps its kind over a last step. -/
theorem returning {x : Convert Unit} (hid : (p.graph.node id).isKind k)
    (hx : Tracing s p x fun _ _ => True) :
    Tracing s p (do x; return id) fun id p' => (p'.graph.node id).isKind k :=
  hx.bind fun _ _ h₁ _ => .pure (h₁.kind id k hid)

end

/-! ### Nodes that are added -/

section

variable {given : List (String × Value)}

theorem add (hk : k ∉ Kind.structural) (hgiven : p.graph.Suits k given) :
    Tracing s p (add (.make k given)) fun id p' => (p'.graph.node id).isKind k := by
  refine fun hp => .add none ⟨hp.enterOther hk hgiven, ?_⟩
  exact (congrArg (·.isKind k) (Graph.node_add_size _ _)).trans (Node.isKind_make.2 rfl)

/-- A node of which nothing is read. -/
theorem addUnread (hk : k ∉ Kind.structural) (hread : k.read = []) :
    Tracing s p (Convert.add (.make k given)) fun id p' => (p'.graph.node id).isKind k :=
  add hk fun _ _ _ hc => absurd (hread ▸ hc) List.not_mem_nil

end

theorem addPlace (place : SourcePlace) :
    Tracing s p (addPlace place) fun id p' => (p'.graph.node id).isKind .location :=
  add (by decide) (by simp [Graph.Suits, Kind.read])

theorem spanOf (c : Cursor) : Tracing s p (spanOf c) fun _ _ => True :=
  .reads_bind (.check _) ((addPlace _).bind fun _ _ _ _ => (addPlace _).bind fun _ _ _ _ =>
    (addUnread (by decide) rfl).bind fun _ _ _ _ => .pure trivial)

theorem addAttribute (c : Cursor) (parent : Value) :
    Tracing s p (addAttribute c parent) fun id p' => (p'.graph.node id).isKind .attr :=
  .reads_bind (.kindOf c) (.reads_bind (.nameOf c) ((spanOf c).bind fun _ _ _ _ =>
    add (by decide) (by simp [Graph.Suits, Kind.read])))

theorem addMacro (c : Cursor) (parent : Value) :
    Tracing s p (addMacro c parent) fun id p' => (p'.graph.node id).isKind .macroDef := by
  refine .reads_bind (.nameOf c) ((spanOf c).bind fun _ p₁ _ _ => add (by decide) ?_)
  have hnone : p₁.graph.Fits .texts .null := .inl rfl
  have hsome (names : List String) : p₁.graph.Fits .texts (.list (names.map .text)) :=
    .inr ⟨names, rfl⟩
  cases (MacroText.ofTokens c.tokens).parameters? with
  | none => simp [Graph.Suits, Kind.read, hnone]
  | some names => simp [Graph.Suits, Kind.read, hsome]

theorem addRemark (r : Remark) :
    Tracing s p (addRemark r) fun id p' => (p'.graph.node id).isKind .diagnostic := by
  by_cases hfile : r.location.file?.isSome
  · simp only [Convert.addRemark, if_pos hfile, map_eq_pure_bind, bind_assoc, pure_bind]
    refine (addPlace _).bind fun id p₁ _ hid => add (by decide) ?_
    have hlocation : p₁.graph.Fits (.link [.location]) (.node id) :=
      .inr ⟨id, rfl, _, List.mem_singleton_self _, hid⟩
    simpa [Graph.Suits, Kind.read] using hlocation
  · simp only [Convert.addRemark, if_neg hfile, pure_bind]
    have hlocation : p.graph.Fits (.link [.location]) .null := .inl rfl
    exact add (by decide) (by simpa [Graph.Suits, Kind.read] using hlocation)

theorem addEnumItem (c : Cursor) (parent : NodeId) :
    Tracing s p (addEnumItem s c parent) fun id p' => (p'.graph.node id).isKind .enumItem :=
  .reads_bind (.nameOf c) ((spanOf c).bind fun _ _ _ _ =>
    add (by decide) (by simp [Graph.Suits, Kind.read]))

theorem newRecord (c : Cursor) (parent : Value) :
    Tracing s p (newRecord s c parent) fun id p' => (p'.graph.node id).isKind .record :=
  .reads_bind (.kindOf c) (.reads_bind (.ownNameOf c) ((spanOf c).bind fun _ _ _ _ =>
    add (by decide) (by simp [Graph.Suits, Kind.read])))

theorem newEnum (c : Cursor) (parent : Value) :
    Tracing s p (newEnum s c parent) fun id p' => (p'.graph.node id).isKind .enum :=
  .reads_bind (.ownNameOf c) (.reads_bind (.sizeOf _ c) ((spanOf c).bind fun _ _ _ _ =>
    add (by decide) (by simp [Graph.Suits, Kind.read])))

theorem newTypedef (c : Cursor) (parent : Value) :
    Tracing s p (newTypedef s c parent) fun id p' => (p'.graph.node id).isKind .typedef :=
  .reads_bind (.nameOf c) (.reads_bind (.sizeOf _ c) ((spanOf c).bind fun _ _ _ _ =>
    add (by decide) (by simp [Graph.Suits, Kind.read])))

theorem addAttributes (u : TranslationUnit) (parent : Value) (children : List CursorId) :
    Tracing s p (addAttributes u parent children) fun ids p' =>
      ∀ id ∈ ids, (p'.graph.node id).isKind .attr := by
  induction children generalizing p with
  | nil => exact .pure fun id hid => absurd hid List.not_mem_nil
  | cons child rest ih =>
    refine .reads_bind (.kindOf _) ?_
    split
    · exact cons (addAttribute _ _) fun _ => ih
    · exact ih

/-! ### Fields that are set -/

section

variable (hid : (p.graph.node id).isKind k)

include hid

/-- A field of a scalar. -/
theorem setScalar (hread : ∀ e ∈ k.read, e.1 = name → e.2 = .plain) (x : Scalar) :
    Tracing s p (setField id name (.scalar x)) fun _ _ => True := by
  refine fun hp => .setField ⟨hp.setField hid (fun c hc => ?_) fun _ _ m hm => ?_, trivial⟩
  · obtain rfl := hread _ hc rfl
    exact Graph.fits_plain_scalar x
  · exact absurd hm (Value.not_leadsTo_scalar x m)

variable (hk : k ∉ .parameter :: Kind.structural)

include hk

theorem setField (hv : Traced s p → ∀ c, (name, c) ∈ k.read → p.graph.Fits c v) :
    Tracing s p (setField id name v) fun _ _ => True := by
  refine fun hp => .setField ⟨hp.setField hid (hv hp) fun o ho => ?_, trivial⟩
  exact absurd (ho.symm.trans (hp.made_eq_none hid hk)) (by simp)

/-- A field that is not read. -/
theorem setUnread (hread : ∀ e ∈ k.read, e.1 ≠ name) (v : Value) :
    Tracing s p (Convert.setField id name v) fun _ _ => True :=
  setField hid hk fun _ _ hc => absurd rfl (hread _ hc)

theorem adopt (hread : ∀ e ∈ k.read, e.1 ≠ "parent") (parent : Value) :
    Tracing s p (adopt id parent) fun _ _ => True := by
  refine .node_bind ?_
  split
  · exact setUnread hid hk hread parent
  · exact .pure trivial

/-- A type that is mentioned. -/
theorem setLink (hread : ∀ e ∈ k.read, e.1 = name → e.2 = .link Kind.types)
    (hv : Serves s p a v) : Tracing s p (Convert.setField id name v) fun _ _ => True := by
  refine setField hid hk fun hp c hc => ?_
  obtain rfl := hread _ hc rfl
  exact hv.fits hp

variable {item : NodeId} {k' : Kind} (hread : ∀ e ∈ k.read, e.1 = name → e.2 = .nodes k')

include hread

/-- A list of nodes, or a field that is not read. -/
theorem setNodes {ids : List NodeId} (hids : ∀ m ∈ ids, (p.graph.node m).isKind k') :
    Tracing s p (Convert.setField id name (.nodes ids)) fun _ _ => True := by
  refine setField hid hk fun _ c hc => ?_
  obtain rfl := hread _ hc rfl
  exact Graph.fits_nodes hids

/-- One more node in a list. -/
theorem setAppended (hitem : (p.graph.node item).isKind k') :
    Tracing s p (Convert.setField id name
      (appended ((p.graph.node id).get name) (.node item))) fun _ _ => True := by
  refine setField hid hk fun hp c hc => ?_
  obtain rfl := hread _ hc rfl
  obtain ⟨ids, hids, hkinds⟩ := hp.legible.fits hid hc
  rw [hids, appended_nodes]
  refine Graph.fits_nodes fun m hm => ?_
  rcases List.mem_append.1 hm with hm | hm
  · exact hkinds m hm
  · exact List.mem_singleton.1 hm ▸ hitem

theorem append (hitem : (p.graph.node item).isKind k') :
    Tracing s p (append id name item) fun _ _ => True :=
  .node_bind (setAppended hid hk hread hitem)

theorem appendOnce (hitem : (p.graph.node item).isKind k') :
    Tracing s p (appendOnce id name item) fun _ _ => True := by
  refine .node_bind ?_
  split
  · exact .pure trivial
  · exact setAppended hid hk hread hitem

end

end Tracing

end DeclGraph
