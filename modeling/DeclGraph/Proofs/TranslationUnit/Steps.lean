import DeclGraph.Proofs.TranslationUnit.Sound

/-!
# Steps of sound accounts

Places, extents, attributes, macros, remarks and the constants of enumerations depend on a single
cursor.  Their nodes are complete as soon as they are there, so converting one of them continues a
sound account without changing any node.  A node that is still open grows by what is put into its
lists (`Leaves.append`, `Leaves.appendOnce`).
-/

namespace DeclGraph

namespace Leaves

open DeclGraph.Convert DeclGraph.Account

variable {s : ConversionSetting} {O : Set NodeId} {p : Account} (h : Sound s O p)

include h

theorem addPlace (q : SourcePlace) :
    Leaves p (addPlace q) fun id p' => p'.made id = some (.place q) ∧ Continues s O ∅ p p' ∧
      p'.declarations = p.declarations :=
  .add (some (.place q)) ⟨made_enter .., .enter h rfl fun _ hshows => hshows, rfl⟩

theorem spanOf (c : Cursor) : Leaves p (spanOf c) fun v p' =>
    ∃ id, v = .node id ∧ IsSpan p' c id ∧ Continues s O ∅ p p' ∧
      p'.declarations = p.declarations := by
  refine .reads_bind (.check _) ((addPlace h c.start).bind fun first p₁ ⟨hfirst, h₁, heq₁⟩ => ?_)
  refine (addPlace h₁.sound c.stop).bind fun last p₂ ⟨hlast, h₂, heq₂⟩ => ?_
  refine .add_bind (some (.extent c.start c.stop)) (.pure ⟨_, rfl, made_enter .., ?_, heq₂.trans heq₁⟩)
  refine (h₁.trans h₂).trans (.enter h₂.sound rfl fun keeps hshows => ?_)
  exact ⟨first, last, hshows, keeps.made _ _ (h₂.keeps.made _ _ hfirst), keeps.made _ _ hlast⟩

theorem addAttribute (c : Cursor) (parent : Value) :
    Leaves p (addAttribute c parent) fun id p' =>
      p'.made id = some (.attr c) ∧ Continues s O ∅ p p' := by
  refine .reads_bind (.kindOf c) (.reads_bind (.nameOf c) ((spanOf h c).bind ?_))
  rintro _ p₁ ⟨span, rfl, hspan, h₁, _⟩
  refine .add (some (.attr c)) ⟨made_enter .., h₁.trans (.enter h₁.sound rfl ?_)⟩
  exact fun keeps hshows => ⟨span, hshows, hspan.keep keeps⟩

theorem addMacro (c : Cursor) (parent : Value) :
    Leaves p (addMacro c parent) fun id p' =>
      p'.made id = some (.macroDef c) ∧ Continues s O ∅ p p' := by
  refine .reads_bind (.nameOf c) ((spanOf h c).bind ?_)
  rintro _ p₁ ⟨span, rfl, hspan, h₁, _⟩
  refine .add (some (.macroDef c)) ⟨made_enter .., h₁.trans (.enter h₁.sound rfl ?_)⟩
  exact fun keeps hshows => ⟨span, hshows, hspan.keep keeps⟩

theorem addRemark (r : Remark) : Leaves p (addRemark r) fun id p' =>
    p'.made id = some (.remark r) ∧ Continues s O ∅ p p' := by
  by_cases hfile : r.location.file?.isSome
  · simp only [Convert.addRemark, if_pos hfile, map_eq_pure_bind, bind_assoc, pure_bind]
    refine (addPlace h r.location).bind fun place p₁ ⟨hplace, h₁, _⟩ => ?_
    refine .add (some (.remark r)) ⟨made_enter .., h₁.trans (.enter h₁.sound rfl ?_)⟩
    refine fun keeps hshows => ⟨.node place, hshows, ?_⟩
    exact (if_pos hfile).mpr ⟨place, rfl, keeps.made _ _ hplace⟩
  · simp only [Convert.addRemark, if_neg hfile]
    refine .reads_bind (.pure _) (.add (some (.remark r)) ⟨made_enter .., .enter h rfl ?_⟩)
    exact fun _ hshows => ⟨.null, hshows, (if_neg hfile).mpr rfl⟩

theorem addEnumItem (c : Cursor) (parent : NodeId) :
    Leaves p (addEnumItem s c parent) fun id p' =>
      p'.made id = some (.enumItem c) ∧ p.graph.size ≤ id ∧ Continues s O ∅ p p' := by
  refine .reads_bind (.nameOf c) ((spanOf h c).bind ?_)
  rintro _ p₁ ⟨span, rfl, hspan, h₁, _⟩
  refine .add (some (.enumItem c))
    ⟨made_enter .., h₁.keeps.size_le, h₁.trans (.enter h₁.sound rfl ?_)⟩
  exact fun keeps hshows => ⟨span, hshows, hspan.keep keeps⟩

omit h in
theorem addAttributes (h : Sound s O p) (parent : Value) (children : List CursorId) :
    Leaves p (addAttributes s.unit parent children) fun ids p' =>
      Picks (fun id c => p'.made id = some (.attr (s.unit.cursor c)))
        (fun c => (s.unit.cursor c).kind.isAttribute) ids children ∧ Continues s O ∅ p p' := by
  induction children generalizing p with
  | nil => exact .pure ⟨.nil, .refl h ∅⟩
  | cons child rest ih =>
    refine .reads_bind (.kindOf _) ?_
    split_ifs with hattr
    · refine (addAttribute h _ parent).bind fun id p₁ ⟨hid, h₁⟩ => ?_
      refine (ih h₁.sound).bind fun ids p₂ ⟨hids, h₂⟩ => .pure ⟨?_, h₁.trans h₂⟩
      exact hids.cons_of_pos hattr (h₂.keeps.made _ _ hid)
    · exact (ih h).mono fun ids p₁ ⟨hids, h₁⟩ => ⟨hids.cons_of_neg hattr, h₁⟩

/-- A new node that is still open. -/
theorem add_open {n : Node} (x : Origin) (ho : x.isTabled = false) {β : Type}
    {f : NodeId → Convert β} {R : β → Account → Prop}
    (hf : ∀ p₁, Keeps ∅ p p₁ → Sound s (insert p.graph.size O) p₁ →
      p₁.made p.graph.size = some x → p₁.Shows p.graph.size n → Leaves p₁ (f p.graph.size) R) :
    Leaves p (Convert.add n >>= f) R :=
  .add_bind (some x) (hf _ h.keeps_enter (h.enter ho) (made_enter ..) (shows_enter ..))

/-- A new node of which everything is known at once. -/
theorem add_closed {n : Node} (x : Origin) (ho : x.isTabled = false) {β : Type}
    {f : NodeId → Convert β} {R : β → Account → Prop}
    (hm : ∀ p₁, Keeps ∅ p p₁ → p₁.Shows p.graph.size n → Mirrors s p₁ p.graph.size x)
    (hf : ∀ p₁, Continues s O ∅ p p₁ → p₁.made p.graph.size = some x →
      Leaves p₁ (f p.graph.size) R) : Leaves p (Convert.add n >>= f) R :=
  .add_bind (some x) (hf _ (.enter h ho (hm _)) (made_enter ..))

/-! ### Lists of open nodes -/

section

variable {id item : NodeId} {name : String} {ids : List NodeId} {n : Node}

theorem append (hid : id ∈ O) (hshows : p.Shows id n) (hget : n.get name = .nodes ids)
    (hname : name ≠ "is_definition") (hparent : name ≠ "parent") :
    Leaves p (append id name item) fun _ p' =>
      p'.Shows id (n.set name (.nodes (ids ++ [item]))) ∧ Continues s O {id} p p' := by
  refine .node_bind (.setField ⟨?_, .setField h hid _ hname _⟩)
  rw [hshows.get hparent, hget, appended_nodes]
  exact hshows.setField name _

/-- A list that holds each of its nodes once takes a node that it holds already for what it is. -/
theorem appendOnce (hid : id ∈ O) (hshows : p.Shows id n) (hget : n.get name = .nodes ids.eraseDups)
    (hset : n.set name (.nodes ids.eraseDups) = n)
    (hname : name ≠ "is_definition") (hparent : name ≠ "parent") :
    Leaves p (appendOnce id name item) fun _ p' =>
      p'.Shows id (n.set name (.nodes (ids ++ [item]).eraseDups)) ∧ Continues s O {id} p p' := by
  refine .node_bind ?_
  rw [hshows.get hparent, hget, refersTo_nodes, eraseDups_concat]
  by_cases hitem : item ∈ ids
  · rw [if_pos hitem, if_pos (by simpa using hitem), hset]
    exact .pure ⟨hshows, .refl h _⟩
  · rw [if_neg hitem, if_neg (by simpa using hitem), appended_nodes]
    exact .setField ⟨hshows.setField name _, .setField h hid _ hname _⟩

end

/-- A declaration gets a parent if it has none. -/
theorem adopt (id : NodeId) (parent : Value) :
    Leaves p (adopt id parent) fun _ p' => Continues s O ∅ p p' := by
  refine .node_bind ?_
  split
  · exact .setField (.setParent h id parent)
  · exact .pure (.refl h ∅)

end Leaves

end DeclGraph
