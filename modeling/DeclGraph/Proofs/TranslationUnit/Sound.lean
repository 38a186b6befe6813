import DeclGraph.Proofs.TranslationUnit.Mirror

/-!
# Sound accounts

An account is `Sound` if its tables agree with what its nodes were made from, if everything in it
was reached, and if every node mirrors what it was made from, up to an open set of nodes that are
still being filled.  Each change of a conversion keeps this: a new node, a field of an open node, a
new entry in one of the tables, the definition of a record.  `Continues` sums up what a step gives:
a later account that is sound again.
-/

namespace DeclGraph

open Account

variable (s : ConversionSetting)

/-- The tables of an account agree with what the nodes were made from, and all of it was reached. -/
structure Consistent (p : Account) : Prop where
  below : ∀ id o, p.made id = some o → id < p.graph.size
  told : ∀ id < p.graph.size, ∃ o, p.made id = some o
  types : ∀ key id, Entries.get? key p.types = some id →
    ∃ t, p.made id = some (.type t) ∧ (s.unit.type t).key = key
  typed : ∀ id t, p.made id = some (.type t) →
    Entries.get? (s.unit.type t).key p.types = some id ∧
      (s.unit.type t).kind.shape.isStructural ∧ Reached s p (.type (some t))
  declarations : ∀ key id, Entries.get? key p.declarations = some id →
    ∃ c k, p.made id = some (.declaration c k) ∧ (s.unit.cursor c).key = key
  declared : ∀ id c k, p.made id = some (.declaration c k) →
    Entries.get? (s.unit.cursor c).key p.declarations = some id ∧
      (p.graph.node id).isKind k ∧ Reached s p (.declaration c k)
  filled : ∀ id d, p.filled id = some d →
    (∃ c, p.made id = some (.declaration c .record) ∧
      (s.unit.cursor c).key = (s.unit.cursor d).key) ∧
      (s.unit.cursor d).isDefinition ∧ Reached s p (.declaration d .record)
  flagged : ∀ id c, p.made id = some (.declaration c .record) →
    ((p.graph.node id).get "is_definition").isTrue = (p.filled id).isSome

/-- A consistent account whose nodes mirror what they were made from, but for some open ones; an
open record is being filled. -/
structure Sound (O : Set NodeId) (p : Account) : Prop extends Consistent s p where
  mirrors : ∀ id o, p.made id = some o → id ∉ O → Mirrors s p id o
  opened : ∀ id ∈ O, ∃ o, p.made id = some o ∧
    ∀ c, o = .declaration c .record → (p.filled id).isSome

/-- A later sound account in which records may have been filled and some further nodes may have
changed. -/
structure Continues (O X : Set NodeId) (p p' : Account) : Prop where
  keeps : Keeps (X ∪ p.unfilled) p p'
  sound : Sound s O p'

variable {s} {O X : Set NodeId} {p p' : Account}

/-! ### Nodes of changed accounts -/

namespace Account

variable (p) (n : Node) (o : Option Origin) (id : NodeId) (name : String) (v : Value)

@[simp] theorem size_enter : (p.enter n o).graph.size = p.graph.size + 1 := by
  simp [enter, Graph.add, Graph.size]

@[simp] theorem size_setField : (p.setField id name v).graph.size = p.graph.size := by
  simp [setField, Graph.setField, Graph.modify, Graph.size]

theorem made_enter : (p.enter n o).made p.graph.size = o := if_pos rfl

theorem shows_enter : (p.enter n o).Shows p.graph.size n :=
  congrArg Node.core (Graph.node_add_size p.graph n)

variable {p n id}

theorem Shows.setField (h : p.Shows id n) : (p.setField id name v).Shows id (n.set name v) := by
  rw [Shows, Account.setField, Graph.node_setField, if_pos rfl, Node.core_set, Node.core_set, h]

/-- A field other than the parent is what the node shows. -/
theorem Shows.get (h : p.Shows id n) {name : String} (hname : name ≠ "parent") :
    (p.graph.node id).get name = n.get name := Node.get_of_core h hname

end Account

/-! ### Changed accounts -/

theorem Consistent.filled_size (h : Consistent s p) : p.filled p.graph.size = none := by
  cases hd : p.filled p.graph.size with
  | none => rfl
  | some d =>
    obtain ⟨⟨c, hc, _⟩, _⟩ := h.filled _ _ hd
    exact absurd (h.below _ _ hc) (lt_irrefl _)

/-- A later account is consistent if everything that is new in it is. -/
theorem Consistent.of_keeps (h : Consistent s p) (hk : Keeps X p p')
    (hbelow : ∀ id o, p'.made id = some o → id < p'.graph.size)
    (htold : ∀ id < p'.graph.size, id < p.graph.size ∨ ∃ o, p'.made id = some o)
    (htypes : ∀ key id, Entries.get? key p'.types = some id → Entries.get? key p.types = some id ∨
      ∃ t, p'.made id = some (.type t) ∧ (s.unit.type t).key = key)
    (htyped : ∀ id t, p'.made id = some (.type t) → p.made id = some (.type t) ∨
      Entries.get? (s.unit.type t).key p'.types = some id ∧
        (s.unit.type t).kind.shape.isStructural ∧ Reached s p (.type (some t)))
    (hdeclarations : ∀ key id, Entries.get? key p'.declarations = some id →
      Entries.get? key p.declarations = some id ∨
        ∃ c k, p'.made id = some (.declaration c k) ∧ (s.unit.cursor c).key = key)
    (hdeclared : ∀ id c k, p'.made id = some (.declaration c k) →
      p.made id = some (.declaration c k) ∨
        Entries.get? (s.unit.cursor c).key p'.declarations = some id ∧
          (p'.graph.node id).isKind k ∧ Reached s p (.declaration c k))
    (hfilled : ∀ id d, p'.filled id = some d → p.filled id = some d ∨
      (∃ c, p.made id = some (.declaration c .record) ∧
        (s.unit.cursor c).key = (s.unit.cursor d).key) ∧
        (s.unit.cursor d).isDefinition ∧ Reached s p (.declaration d .record))
    (hflagged : ∀ id c, p'.made id = some (.declaration c .record) →
      (p.made id = some (.declaration c .record) ∧
        (p'.graph.node id).get "is_definition" = (p.graph.node id).get "is_definition" ∧
        p'.filled id = p.filled id) ∨
      ((p'.graph.node id).get "is_definition").isTrue = (p'.filled id).isSome) :
    Consistent s p' := by
  -- what is old stays, since later accounts keep it; the rest is as the hypotheses say
  have reached : ∀ {r}, Reached s p r → Reached s p' r := Reached.mono hk.made hk.filled
  refine ⟨hbelow, fun id hid => ?_, fun key id hid => ?_, fun id t ht => ?_, fun key id hid => ?_,
    fun id c k hc => ?_, fun id d hd => ?_, fun id c hc => ?_⟩
  · rcases htold id hid with hold | hnew
    · obtain ⟨o, ho⟩ := h.told id hold
      exact ⟨o, hk.made _ _ ho⟩
    · exact hnew
  · rcases htypes key id hid with hold | hnew
    · obtain ⟨t, ht, hkey⟩ := h.types key id hold
      exact ⟨t, hk.made _ _ ht, hkey⟩
    · exact hnew
  · rcases htyped id t ht with hold | ⟨hlisted, hshape, hreached⟩
    · obtain ⟨hlisted, hshape, hreached⟩ := h.typed id t hold
      exact ⟨hk.types _ _ hlisted, hshape, reached hreached⟩
    · exact ⟨hlisted, hshape, reached hreached⟩
  · rcases hdeclarations key id hid with hold | hnew
    · obtain ⟨c, k, hc, hkey⟩ := h.declarations key id hold
      exact ⟨c, k, hk.made _ _ hc, hkey⟩
    · exact hnew
  · rcases hdeclared id c k hc with hold | ⟨hlisted, hkind, hreached⟩
    · obtain ⟨hlisted, hkind, hreached⟩ := h.declared id c k hold
      refine ⟨hk.declarations _ _ hlisted, ?_, reached hreached⟩
      rw [Node.isKind, hk.shape id (h.below _ _ hold)]
      exact hkind
    · exact ⟨hlisted, hkind, reached hreached⟩
  · obtain ⟨⟨c, hc, hkey⟩, hdef, hreached⟩ := (hfilled id d hd).elim (h.filled id d) fun hnew => hnew
    exact ⟨⟨c, hk.made _ _ hc, hkey⟩, hdef, reached hreached⟩
  · rcases hflagged id c hc with ⟨hold, hget, hfill⟩ | hnew
    · rw [hget, hfill]
      exact h.flagged id c hold
    · exact hnew

/-- A sound account stays sound under changes of open nodes. -/
theorem Sound.of_keeps {O' : Set NodeId} (h : Sound s O p) (hk : Keeps X p p')
    (hc : Consistent s p') (hO : O ⊆ O') (hX : ∀ id ∈ X, id < p.graph.size → id ∈ O')
    (hnew : ∀ id o, p'.made id = some o → p.graph.size ≤ id → id ∉ O' → Mirrors s p' id o)
    (hopened : ∀ id ∈ O', id ∉ O → ∃ o, p'.made id = some o ∧
      ∀ c, o = .declaration c .record → (p'.filled id).isSome) : Sound s O' p' := by
  refine ⟨hc, fun id o ho hid => ?_, fun id hid => ?_⟩
  · rcases lt_or_ge id p.graph.size with hlt | hge
    · rw [hk.made_eq id hlt] at ho
      exact (h.mirrors id o ho fun hO' => hid (hO hO')).keep hk hlt fun hX' => hid (hX id hX' hlt)
    · exact hnew id o ho hge hid
  · by_cases hold : id ∈ O
    · obtain ⟨o, ho, hrecord⟩ := h.opened id hold
      refine ⟨o, hk.made _ _ ho, fun c hc => ?_⟩
      obtain ⟨d, hd⟩ := Option.isSome_iff_exists.1 (hrecord c hc)
      rw [hk.filled _ _ hd, Option.isSome_some]
    · exact hopened id hid hold

/-! ### New nodes -/

section

variable {n : Node}

/-- A further node leaves all others as they are. -/
theorem Account.Keeps.of_add (h : Consistent s p) (hgraph : p'.graph = p.graph.add n)
    (hmade : ∀ id, id ≠ p.graph.size → p'.made id = p.made id) (hfilled : p'.filled = p.filled)
    (htypes : ∀ key id, Entries.get? key p.types = some id → Entries.get? key p'.types = some id)
    (hdeclarations : ∀ key id, Entries.get? key p.declarations = some id →
      Entries.get? key p'.declarations = some id) : Keeps ∅ p p' where
  size_le := by simp [hgraph, Graph.add, Graph.size]
  shape id hid := by rw [hgraph, Graph.node_add_of_lt _ _ hid]
  core id hid _ := by rw [hgraph, Graph.node_add_of_lt _ _ hid]
  made id o ho := by rw [hmade id (h.below id o ho).ne, ho]
  made_eq id hid := hmade id hid.ne
  filled id d hd := by rw [hfilled, hd]
  filled_eq id _ _ := by rw [hfilled]
  types := htypes
  declarations := hdeclarations

/-- Whether an origin stands in a table. -/
def Origin.isTabled : Origin → Bool
  | .type _ | .declaration _ _ => true
  | _ => false

theorem Consistent.keeps_enter (h : Consistent s p) {o : Option Origin} : Keeps ∅ p (p.enter n o) :=
  .of_add h rfl (fun id hid => by simp [enter, hid]) rfl (fun _ _ hid => hid) (fun _ _ hid => hid)

variable {o : Origin}

theorem Consistent.enter (h : Consistent s p) (ho : o.isTabled = false) :
    Consistent s (p.enter n (some o)) := by
  -- the new origin stands in no table
  have back : ∀ id x, (p.enter n (some o)).made id = some x → x.isTabled = true →
      p.made id = some x := by
    intro id x hx htabled
    simp only [Account.enter] at hx
    split_ifs at hx with hid
    · rw [Option.some.inj hx, htabled] at ho
      exact absurd ho (by simp)
    · exact hx
  refine h.of_keeps h.keeps_enter (fun id x hx => ?_) (fun id hid => ?_) (fun _ _ hid => .inl hid)
    (fun id t ht => .inl (back _ _ ht rfl)) (fun _ _ hid => .inl hid)
    (fun id c k hc => .inl (back _ _ hc rfl)) (fun _ _ hd => .inl hd) fun id c hc => .inl ?_
  · simp only [Account.enter] at hx
    rw [size_enter]
    split_ifs at hx with hid
    · exact hid ▸ Nat.lt_succ_self _
    · exact (h.below id x hx).trans (Nat.lt_succ_self _)
  · rw [size_enter] at hid
    exact (Nat.lt_succ_iff_lt_or_eq.1 hid).imp_right fun heq => ⟨o, if_pos heq⟩
  · have hmade := back _ _ hc rfl
    exact ⟨hmade, by rw [Account.enter, Graph.node_add_of_lt _ _ (h.below _ _ hmade)], rfl⟩

/-- A new node is open at first. -/
theorem Sound.enter (h : Sound s O p) {x : Origin} (ho : x.isTabled = false) :
    Sound s (insert p.graph.size O) (p.enter n (some x)) := by
  refine h.of_keeps h.keeps_enter (h.toConsistent.enter ho) (Set.subset_insert _ _) (by simp)
    (fun id x hx hge hid => ?_) fun id hid hO => ?_
  · simp only [Account.enter] at hx
    split_ifs at hx with heq
    · exact absurd (heq ▸ Set.mem_insert _ _) hid
    · exact absurd (h.below id x hx) (not_lt.2 hge)
  · obtain rfl := hid.resolve_right hO
    exact ⟨x, made_enter .., fun c hc => absurd ho (by simp [hc, Origin.isTabled])⟩

/-- A new node that mirrors what it was made from. -/
theorem Sound.enter_closed (h : Sound s O p) {x : Origin} (ho : x.isTabled = false)
    (hm : Mirrors s (p.enter n (some x)) p.graph.size x) : Sound s O (p.enter n (some x)) := by
  refine h.of_keeps h.keeps_enter (h.toConsistent.enter ho) subset_rfl (by simp)
    (fun id y hy hge _ => ?_) fun id hid hO => absurd hid hO
  simp only [Account.enter] at hy
  split_ifs at hy with heq
  · obtain rfl := Option.some.inj hy
    exact heq ▸ hm
  · exact absurd (h.below id y hy) (not_lt.2 hge)

/-- The node of a declaration that was not met before. -/
def Account.announce (p : Account) (key : String) (n : Node) (c : CursorId) (k : Kind) : Account :=
  (p.enter n none).declare key p.graph.size c k

variable {c : CursorId} {k : Kind} {q : Node}

theorem Account.made_announce (p : Account) (key : String) (n : Node) (c : CursorId) (k : Kind)
    (id : NodeId) : (p.announce key n c k).made id =
      if id = p.graph.size then some (.declaration c k) else p.made id := by
  simp only [announce, declare, Account.enter]
  split_ifs <;> rfl

theorem Consistent.keeps_announce (h : Consistent s p) {key : String}
    (hkey : Entries.get? key p.declarations = none) : Keeps ∅ p (p.announce key n c k) := by
  refine .of_add h rfl (fun id hid => by rw [made_announce, if_neg hid]) rfl (fun _ _ hid => hid)
    fun key' id hid => ?_
  have hne : key' ≠ key := by
    rintro rfl
    rw [hkey] at hid
    exact absurd hid (by simp)
  rw [← hid]
  exact Entries.get?_put_of_ne hne _ _

theorem Consistent.announce (h : Consistent s p)
    (hkey : Entries.get? (s.unit.cursor c).key p.declarations = none)
    (hreached : Reached s p (.declaration c k)) (hn : n.core = q.core) (hkind : q.isKind k)
    (hflag : (q.get "is_definition").isTrue = false) :
    Consistent s (p.announce (s.unit.cursor c).key n c k) := by
  have new : (p.announce (s.unit.cursor c).key n c k).graph.node p.graph.size = n :=
    Graph.node_add_size p.graph n
  -- only the new node is new: in what was made, and under its key
  refine h.of_keeps (h.keeps_announce hkey) (fun id x hx => ?_) (fun id hid => ?_)
    (fun _ _ hid => .inl hid) (fun id t ht => .inl ?_) (fun key id hid => ?_)
    (fun id c' k' hc => ?_) (fun _ _ hd => .inl hd) fun id c' hc => ?_
  · rw [made_announce] at hx
    rw [Account.announce, Account.declare, size_enter]
    split_ifs at hx with hid
    · exact hid ▸ Nat.lt_succ_self _
    · exact (h.below id x hx).trans (Nat.lt_succ_self _)
  · rw [Account.announce, Account.declare, size_enter] at hid
    exact (Nat.lt_succ_iff_lt_or_eq.1 hid).imp_right fun heq => ⟨_, if_pos heq⟩
  · rw [made_announce] at ht
    split_ifs at ht with hid
    · exact absurd ht (by simp)
    · exact ht
  · by_cases heq : key = (s.unit.cursor c).key
    · subst heq
      have hsize : p.graph.size = id := Option.some.inj ((Entries.get?_put_self _ _ _).symm.trans hid)
      exact .inr ⟨c, k, by rw [made_announce, if_pos hsize.symm], rfl⟩
    · exact .inl ((Entries.get?_put_of_ne heq _ _).symm.trans hid)
  · rw [made_announce] at hc
    split_ifs at hc with hid
    · obtain ⟨rfl, rfl⟩ := Origin.declaration.inj (Option.some.inj hc)
      exact .inr ⟨hid ▸ Entries.get?_put_self _ _ _,
        by rw [hid, new, Node.isKind_of_core hn, hkind], hreached⟩
    · exact .inl hc
  · rw [made_announce] at hc
    split_ifs at hc with hid
    · refine .inr ?_
      rw [hid, new, Node.get_of_core hn (by decide), hflag]
      exact (congrArg Option.isSome h.filled_size).symm
    · exact .inl ⟨hc, congrArg (Node.get · _) (Graph.node_add_of_lt _ _ (h.below _ _ hc)), rfl⟩

/-- A new declaration other than a record is open at first. -/
theorem Sound.announce (h : Sound s O p)
    (hkey : Entries.get? (s.unit.cursor c).key p.declarations = none)
    (hreached : Reached s p (.declaration c k)) (hn : n.core = q.core) (hkind : q.isKind k)
    (hflag : (q.get "is_definition").isTrue = false) (hk : k ≠ .record) :
    Sound s (insert p.graph.size O) (p.announce (s.unit.cursor c).key n c k) := by
  refine h.of_keeps (h.keeps_announce hkey) (h.toConsistent.announce hkey hreached hn hkind hflag)
    (Set.subset_insert _ _) (by simp) (fun id x hx hge hid => ?_) fun id hid hO => ?_
  · rw [made_announce] at hx
    split_ifs at hx with heq
    · exact absurd (heq ▸ Set.mem_insert _ _) hid
    · exact absurd (h.below id x hx) (not_lt.2 hge)
  · obtain rfl := hid.resolve_right hO
    refine ⟨.declaration c k, by rw [made_announce, if_pos rfl], fun c' hc => ?_⟩
    exact absurd (Origin.declaration.inj hc).2 hk

/-- A new declaration that mirrors its cursor. -/
theorem Sound.announce_closed (h : Sound s O p)
    (hkey : Entries.get? (s.unit.cursor c).key p.declarations = none)
    (hreached : Reached s p (.declaration c k)) (hn : n.core = q.core) (hkind : q.isKind k)
    (hflag : (q.get "is_definition").isTrue = false)
    (hm : Mirrors s (p.announce (s.unit.cursor c).key n c k) p.graph.size (.declaration c k)) :
    Sound s O (p.announce (s.unit.cursor c).key n c k) := by
  refine h.of_keeps (h.keeps_announce hkey) (h.toConsistent.announce hkey hreached hn hkind hflag)
    subset_rfl (by simp) (fun id x hx hge _ => ?_) fun id hid hO => absurd hid hO
  rw [made_announce] at hx
  split_ifs at hx with heq
  · obtain rfl := Option.some.inj hx
    exact heq ▸ hm
  · exact absurd (h.below id x hx) (not_lt.2 hge)

variable {t : TypeId}

theorem Consistent.keeps_addType (h : Consistent s p) {key : TypeKind × String}
    (hkey : Entries.get? key p.types = none) : Keeps ∅ p (p.addType key n t) := by
  refine .of_add h rfl (fun id hid => if_neg hid) rfl (fun key' id hid => ?_) fun _ _ hid => hid
  have hne : key' ≠ key := by
    rintro rfl
    rw [hkey] at hid
    exact absurd hid (by simp)
  rw [← hid]
  exact Entries.get?_put_of_ne hne _ _

theorem Consistent.addType (h : Consistent s p)
    (hkey : Entries.get? (s.unit.type t).key p.types = none)
    (hshape : (s.unit.type t).kind.shape.isStructural) (hreached : Reached s p (.type (some t))) :
    Consistent s (p.addType (s.unit.type t).key n t) := by
  -- only the new node is new: in what was made, and under its key
  refine h.of_keeps (h.keeps_addType hkey) (fun id x hx => ?_) (fun id hid => ?_)
    (fun key id hid => ?_) (fun id t' ht => ?_) (fun _ _ hid => .inl hid) (fun id c' k' hc => .inl ?_)
    (fun _ _ hd => .inl hd) fun id c' hc => .inl ?_
  · simp only [Account.addType, Account.enter] at hx
    rw [Account.addType, size_enter]
    split_ifs at hx with hid
    · exact hid ▸ Nat.lt_succ_self _
    · exact (h.below id x hx).trans (Nat.lt_succ_self _)
  · rw [Account.addType, size_enter] at hid
    exact (Nat.lt_succ_iff_lt_or_eq.1 hid).imp_right fun heq => ⟨_, if_pos heq⟩
  · by_cases heq : key = (s.unit.type t).key
    · subst heq
      have hsize : p.graph.size = id := Option.some.inj ((Entries.get?_put_self _ _ _).symm.trans hid)
      exact .inr ⟨t, if_pos hsize.symm, rfl⟩
    · exact .inl ((Entries.get?_put_of_ne heq _ _).symm.trans hid)
  · simp only [Account.addType, Account.enter] at ht
    split_ifs at ht with hid
    · obtain rfl := Origin.type.inj (Option.some.inj ht)
      exact .inr ⟨hid ▸ Entries.get?_put_self _ _ _, hshape, hreached⟩
    · exact .inl ht
  · simp only [Account.addType, Account.enter] at hc
    split_ifs at hc with hid
    · exact absurd hc (by simp)
    · exact hc
  · simp only [Account.addType, Account.enter] at hc
    split_ifs at hc with hid
    · exact absurd hc (by simp)
    · exact ⟨hc, congrArg (Node.get · _) (Graph.node_add_of_lt _ _ (h.below _ _ hc)), rfl⟩

/-- A new type is open at first. -/
theorem Sound.addType (h : Sound s O p)
    (hkey : Entries.get? (s.unit.type t).key p.types = none)
    (hshape : (s.unit.type t).kind.shape.isStructural) (hreached : Reached s p (.type (some t))) :
    Sound s (insert p.graph.size O) (p.addType (s.unit.type t).key n t) := by
  refine h.of_keeps (h.keeps_addType hkey) (h.toConsistent.addType hkey hshape hreached)
    (Set.subset_insert _ _) (by simp) (fun id x hx hge hid => ?_) fun id hid hO => ?_
  · simp only [Account.addType, Account.enter] at hx
    split_ifs at hx with heq
    · exact absurd (heq ▸ Set.mem_insert _ _) hid
    · exact absurd (h.below id x hx) (not_lt.2 hge)
  · obtain rfl := hid.resolve_right hO
    exact ⟨.type t, if_pos rfl, fun c hc => by simp at hc⟩

end

/-! ### Fields of open nodes -/

section

variable {id : NodeId} {name : String} {v : Value}

theorem Account.Keeps.setField (p : Account) (id : NodeId) (name : String) (v : Value) :
    Keeps {id} p (p.setField id name v) :=
  { Keeps.refl {id} p with
    size_le := (size_setField p id name v).ge
    shape := fun id' _ => by
      rw [Account.setField, Graph.node_setField]
      split_ifs <;> rfl
    core := fun id' _ hne => by
      rw [Account.setField, Graph.node_setField,
        if_neg fun heq => hne (Set.mem_singleton_iff.2 heq.symm)] }

/-- The parent of a node does not count. -/
theorem Account.Keeps.setParent (p : Account) (id : NodeId) (v : Value) :
    Keeps ∅ p (p.setField id "parent" v) :=
  { Keeps.setField p id "parent" v with
    core := fun id' _ _ => by
      rw [Account.setField, Graph.node_setField]
      split_ifs
      · exact Node.core_set_parent _ _
      · rfl
    filled_eq := fun _ _ _ => rfl }

theorem Consistent.setField (h : Consistent s p) (hname : name ≠ "is_definition") :
    Consistent s (p.setField id name v) := by
  refine h.of_keeps (Keeps.setField p id name v) (fun id' x hx => ?_)
    (fun id' hid => .inl (hid.trans_le (size_setField p id name v).le)) (fun _ _ hid => .inl hid)
    (fun _ _ ht => .inl ht) (fun _ _ hid => .inl hid) (fun _ _ _ hc => .inl hc)
    (fun _ _ hd => .inl hd) fun _ _ hc => .inl ⟨hc, ?_, rfl⟩
  · rw [size_setField]
    exact h.below id' x hx
  · rw [Account.setField, Graph.node_setField]
    split_ifs
    · exact Node.get_set_of_ne _ (Ne.symm hname) _
    · rfl

theorem Sound.setField (h : Sound s O p) (hid : id ∈ O) (hname : name ≠ "is_definition") :
    Sound s O (p.setField id name v) :=
  h.of_keeps (Keeps.setField p id name v) (h.toConsistent.setField hname) subset_rfl
    (fun _ heq _ => Set.mem_singleton_iff.1 heq ▸ hid)
    (fun id' x hx hge _ => absurd (h.below id' x hx) (not_lt.2 hge)) fun _ hid' hO => absurd hid' hO

theorem Sound.setParent (h : Sound s O p) : Sound s O (p.setField id "parent" v) :=
  h.of_keeps (Keeps.setParent p id v) (h.toConsistent.setField (by simp)) subset_rfl (by simp)
    (fun id' x hx hge _ => absurd (h.below id' x hx) (not_lt.2 hge)) fun _ hid' hO => absurd hid' hO

/-- A node that mirrors what it was made from is open no more. -/
theorem Sound.close (h : Sound s (insert id O) p)
    (hm : ∀ o, p.made id = some o → Mirrors s p id o) : Sound s O p where
  toConsistent := h.toConsistent
  mirrors id' o ho hid' := by
    by_cases heq : id' = id
    · exact heq ▸ hm o (heq ▸ ho)
    · exact h.mirrors id' o ho fun hmem => hmem.elim heq hid'
  opened id' hid' := h.opened id' (Set.mem_insert_of_mem _ hid')

/-! ### Definitions of records -/

variable {d : CursorId}

theorem Account.Keeps.fill (hfilled : p.filled id = none) : Keeps {id} p (p.fill id d) :=
  { Keeps.setField p id "is_definition" (.bool true) with
    filled := fun id' d' hd' => by
      have hne : id' ≠ id := by
        rintro rfl
        rw [hfilled] at hd'
        exact absurd hd' (by simp)
      exact (if_neg hne).trans hd'
    filled_eq := fun _ _ hne => if_neg hne }

theorem Consistent.fill (h : Consistent s p) {c : CursorId}
    (hmade : p.made id = some (.declaration c .record)) (hfilled : p.filled id = none)
    (hshows : IsUnfilled s p (s.unit.cursor c) id)
    (hkey : (s.unit.cursor c).key = (s.unit.cursor d).key)
    (hdef : (s.unit.cursor d).isDefinition) (hreached : Reached s p (.declaration d .record)) :
    Consistent s (p.fill id d) := by
  refine h.of_keeps (.fill hfilled) (fun id' x hx => ?_)
    (fun id' hid => .inl (hid.trans_le (size_setField p id _ _).le)) (fun _ _ hid => .inl hid)
    (fun _ _ ht => .inl ht) (fun _ _ hid => .inl hid) (fun _ _ _ hc => .inl hc)
    (fun id' d' hd' => ?_) fun id' c' hc' => ?_
  · exact (h.below id' x hx).trans_le (size_setField p id _ _).ge
  · simp only [Account.fill] at hd'
    split_ifs at hd' with heq
    · obtain rfl := Option.some.inj hd'
      exact .inr ⟨⟨c, heq ▸ hmade, hkey⟩, hdef, hreached⟩
    · exact .inl hd'
  · by_cases heq : id' = id
    · -- Only a record shows a field that tells of its definition.
      subst heq
      obtain ⟨span, hshows, _⟩ := hshows
      have hget := (hshows.setField "is_definition" (.bool true)).get
        (show "is_definition" ≠ "parent" by simp)
      have hset : (p.fill id' d).filled id' = some d := if_pos rfl
      rw [hset]
      exact .inr ((congrArg Value.isTrue hget).trans rfl)
    · refine .inl ⟨hc', ?_, if_neg heq⟩
      exact congrArg (Node.get · _)
        ((Graph.node_setField p.graph id id' _ _).trans (if_neg (Ne.symm heq)))

theorem Sound.isUnfilled (h : Sound s O p) {c : CursorId}
    (hmade : p.made id = some (.declaration c .record)) (hfilled : p.filled id = none) :
    IsUnfilled s p (s.unit.cursor c) id := by
  have hO : id ∉ O := by
    intro hmem
    obtain ⟨o, ho, hrecord⟩ := h.opened id hmem
    simpa [hfilled] using hrecord c (Option.some.inj (ho.symm.trans hmade))
  have hrecord := h.mirrors _ _ hmade hO
  simpa only [Mirrors, IsDeclaration, IsRecord, hfilled] using hrecord

/-- A record is open from when its definition is met. -/
theorem Sound.fill (h : Sound s O p) {c : CursorId}
    (hmade : p.made id = some (.declaration c .record)) (hfilled : p.filled id = none)
    (hkey : (s.unit.cursor c).key = (s.unit.cursor d).key)
    (hdef : (s.unit.cursor d).isDefinition) (hreached : Reached s p (.declaration d .record)) :
    Sound s (insert id O) (p.fill id d) := by
  have hc := h.toConsistent.fill hmade hfilled (h.isUnfilled hmade hfilled) hkey hdef hreached
  refine h.of_keeps (.fill hfilled) hc (Set.subset_insert _ _)
    (fun id' heq _ => Set.mem_singleton_iff.1 heq ▸ Set.mem_insert _ _)
    (fun id' x hx hge _ => absurd (h.below id' x hx) (not_lt.2 hge)) fun id' hid' hO => ?_
  obtain rfl := hid'.resolve_right hO
  exact ⟨_, hmade, fun _ _ => congrArg Option.isSome (if_pos rfl)⟩

end

/-! ### Steps after steps -/

theorem Account.Keeps.step (h : Keeps X p p') : Keeps (X ∪ p.unfilled) p p' :=
  h.mono Set.subset_union_left

namespace Continues

variable {Y : Set NodeId} {p₁ p₂ : Account}

theorem refl (h : Sound s O p) (X : Set NodeId) : Continues s O X p p := ⟨.refl _ p, h⟩

/-- Nodes that change later may be new by then. -/
theorem keeps_trans (h₁ : Keeps (X ∪ p.unfilled) p p₁) (h₂ : Keeps (Y ∪ p₁.unfilled) p₁ p₂)
    (hXY : ∀ id ∈ Y, id < p.graph.size → id ∈ X) : Keeps (X ∪ p.unfilled) p p₂ :=
  h₁.trans h₂ fun id hid hlt =>
    hid.imp (fun hY => hXY id hY hlt) fun hunfilled => h₁.unfilled hunfilled hlt

theorem trans_new {O' : Set NodeId} (h₁ : Continues s O' X p p₁) (h₂ : Continues s O Y p₁ p₂)
    (hXY : ∀ id ∈ Y, id < p.graph.size → id ∈ X) : Continues s O X p p₂ :=
  ⟨keeps_trans h₁.keeps h₂.keeps hXY, h₂.sound⟩

theorem trans {O' : Set NodeId} (h₁ : Continues s O' X p p₁) (h₂ : Continues s O X p₁ p₂) :
    Continues s O X p p₂ := h₁.trans_new h₂ fun _ hid _ => hid

theorem mono (h : Continues s O X p p₁) (hXY : X ⊆ Y) : Continues s O Y p p₁ :=
  ⟨h.keeps.mono (Set.union_subset_union_left _ hXY), h.sound⟩

theorem setParent (h : Sound s O p) (id : NodeId) (v : Value) :
    Continues s O ∅ p (p.setField id "parent" v) := ⟨(Keeps.setParent p id v).step, h.setParent⟩

theorem setField (h : Sound s O p) {id : NodeId} (hid : id ∈ O) (name : String)
    (hname : name ≠ "is_definition") (v : Value) : Continues s O {id} p (p.setField id name v) :=
  ⟨(Keeps.setField p id name v).step, h.setField hid hname⟩

/-- A new node of which everything is known at once. -/
theorem enter (h : Sound s O p) {n : Node} {x : Origin} (ho : x.isTabled = false)
    (hm : Keeps ∅ p (p.enter n (some x)) → (p.enter n (some x)).Shows p.graph.size n →
      Mirrors s (p.enter n (some x)) p.graph.size x) : Continues s O ∅ p (p.enter n (some x)) :=
  ⟨h.keeps_enter.step, h.enter_closed ho (hm h.keeps_enter (shows_enter ..))⟩

end Continues

end DeclGraph
