import DeclGraph.Proofs.TranslationUnit.Outcome

/-!
# Records are single

A record may be declared again and again, before and after it is defined, and it is met as a
declaration and as a type, also while its own definition is being converted.  All of this leads to
one node for each key.  If a definition was reached, the node shows it; otherwise the node is that
of a declaration.  Where records are listed, each stands at the place where it was declared first:
`SingleRecords`, and `records_of_compilation` for everything that a unit is converted to.
-/

namespace DeclGraph

open Account

variable (s : ConversionSetting) (p : Account)

/-! ### What nodes of records show -/

/-- The node shows a definition: its size, its span and one field for each of its fields. -/
def ShowsDefinition (d : CursorId) (id : NodeId) : Prop :=
  ∃ span fields, (p.graph.node id).get "is_definition" = .bool true ∧
    (p.graph.node id).get "size_of" = .int (s.unit.sizeOf (s.unit.cursor d)) ∧
    (p.graph.node id).get "span" = .node span ∧ IsSpan p (s.unit.cursor d) span ∧
    (p.graph.node id).get "fields" = .nodes fields ∧ fields.Nodup ∧
    Picks (fun id c => p.made id = some (.field (s.unit.cursor c)))
      (fun c => (s.unit.cursor c).kind == .field) fields (s.unit.cursor d).children

/-- The node shows a declaration that is no definition. -/
def ShowsNoDefinition (id : NodeId) : Prop :=
  (p.graph.node id).get "is_definition" = .bool false ∧ (p.graph.node id).get "fields" = .nodes []

/-- The cursors whose records a node lists. -/
inductive Lists : NodeId → List CursorId → Prop
  | compilation {id : NodeId} {source : String} (h : p.made id = some (.compilation source)) :
      Lists id (s.kept.filter s.isVisited)
  | scope {id : NodeId} {t : CursorTree} (h : p.made id = some (.scope t)) :
      Lists id (t.children.map CursorTree.id)
  | definition {id : NodeId} {d : CursorId} (h : p.filled id = some d) :
      Lists id (s.unit.cursor d).children
  | declaration {id : NodeId} (h : id ∈ p.unfilled) : Lists id []

/-- The node lists the records among cursors, each once and at its first place. -/
def ListsOnce (id : NodeId) (cursors : List CursorId) : Prop :=
  ∃ ids, (p.graph.node id).get "classes" = .nodes ids.eraseDups ∧ ids.eraseDups.Nodup ∧
    Picks (fun id c => Represents s p c .record id) (fun c => (s.unit.cursor c).kind.isRecord)
      ids cursors

/-! ### One node for each record -/

/-- Each record is one node, which is filled once. -/
structure SingleRecords : Prop where
  /-- A record that was reached has a node. -/
  found : ∀ d, Reached s p (.declaration d .record) → ∃ id, Represents s p d .record id
  /-- Two declarations have one node if they have one key, and not otherwise. -/
  same : ∀ d d' id id', Represents s p d .record id → Represents s p d' .record id' →
    (id = id' ↔ (s.unit.cursor d).key = (s.unit.cursor d').key)
  /-- There are no other records. -/
  met : ∀ id, (p.graph.node id).isKind .record →
    ∃ d, Reached s p (.declaration d .record) ∧ Represents s p d .record id
  /-- Where a definition was reached, the node shows it. -/
  defined : ∀ d id, Reached s p (.declaration d .record) → (s.unit.cursor d).isDefinition →
    Represents s p d .record id → ShowsDefinition s p d id
  /-- Where no definition was reached, the node shows none. -/
  undefined : ∀ id, (p.graph.node id).isKind .record →
    (∀ d, Reached s p (.declaration d .record) → Represents s p d .record id →
      ¬(s.unit.cursor d).isDefinition) → ShowsNoDefinition p id
  /-- Wherever records are listed, they are listed once. -/
  listed : ∀ id, ((p.graph.node id).isKind .compilation ∨ (p.graph.node id).isKind .scope ∨
    (p.graph.node id).isKind .record) → ∃ cursors, Lists s p id cursors ∧ ListsOnce s p id cursors

variable {s p} {id : NodeId} {d : CursorId} {c : Cursor}

/-! ### From mirrors -/

theorem IsFilled.showsDefinition
    (h : IsFilled s p c (s.unit.cursor d) (s.unit.cursor d).children id) :
    ShowsDefinition s p d id := by
  obtain ⟨span, m, hshows, hspan, hm⟩ := h
  exact ⟨span, m.fields, hshows.get (by decide), hshows.get (by decide), hshows.get (by decide),
    hspan, hshows.get (by decide), hm.nodup, hm.fields⟩

theorem IsUnfilled.showsNoDefinition (h : IsUnfilled s p c id) : ShowsNoDefinition p id := by
  obtain ⟨span, hshows, _⟩ := h
  exact ⟨hshows.get (by decide), hshows.get (by decide)⟩

theorem Holds.listsOnce {b : Container} {ts : List CursorTree} (h : Holds s p b ts id) :
    ListsOnce s p id (ts.map CursorTree.id) := by
  obtain ⟨m, hshows, hm⟩ := h
  refine ⟨m.classes, ?_, nodup_eraseDups _, hm.classes.map⟩
  rw [hshows.get (by decide)]
  cases b <;> rfl

theorem TranslationUnit.map_id_tree (u : TranslationUnit) (cursors : List CursorId) :
    (cursors.map u.tree).map CursorTree.id = cursors := by
  have hid (c : CursorId) : (u.tree c).id = c := by
    rw [tree]
    cases u.cursors.size <;> rfl
  simp [Function.comp_def, hid]

namespace Explains

variable {source : String} {c : Compilation} (h : Explains s source c p)

include h

/-- Wherever records are listed, they are listed once. -/
theorem listed (hk : (p.graph.node id).isKind .compilation ∨ (p.graph.node id).isKind .scope ∨
    (p.graph.node id).isKind .record) :
    ∃ cursors, Lists s p id cursors ∧ ListsOnce s p id cursors := by
  rcases hk with hk | hk | hk
  · obtain ⟨source, hmade⟩ := h.exists_compilation hk
    obtain ⟨_, _, _, hholds, _⟩ := h.mirrors _ _ hmade
    have hlists := hholds.listsOnce
    rw [s.unit.map_id_tree] at hlists
    exact ⟨_, .compilation hmade, hlists⟩
  · obtain ⟨t, hmade⟩ := h.exists_scope hk
    obtain ⟨_, hholds, _⟩ := h.mirrors _ _ hmade
    exact ⟨_, .scope hmade, hholds.listsOnce⟩
  · obtain ⟨c, hmade⟩ := h.exists_declaration hk (.inl rfl)
    -- a record that is not filled lists nothing
    cases hfilled : p.filled id with
    | none =>
      obtain ⟨_, hshows, _⟩ := h.sound.isUnfilled hmade hfilled
      exact ⟨[], .declaration ⟨⟨c, hmade⟩, hfilled⟩, [], hshows.get (by decide), .nil, .nil⟩
    | some d =>
      obtain ⟨_, _, _, m, hshows, _, hm⟩ := h.sound.isFilled hfilled
      exact ⟨_, .definition hfilled, m.classes, hshows.get (by decide), nodup_eraseDups _, hm.classes⟩

/-- Where a definition was reached, the node shows it. -/
theorem showsDefinition (honce : s.unit.DefinesOnce)
    (hreached : Reached s p (.declaration d .record)) (hdef : (s.unit.cursor d).isDefinition)
    (hid : Represents s p d .record id) : ShowsDefinition s p d id := by
  obtain ⟨d', hd'⟩ := Option.isSome_iff_exists.1 (hid.2 rfl hdef)
  obtain ⟨c₀, hmade, hfilled⟩ := h.sound.isFilled hd'
  obtain ⟨⟨c₁, hmade₁, hkey₁⟩, hdef', hreached'⟩ := h.filled _ _ hd'
  have hkey : (s.unit.cursor d').key = (s.unit.cursor d).key :=
    hkey₁.symm.trans ((h.represents_eq_iff (h.represents hmade₁) hid).1 rfl)
  have heq := honce d' d hreached'.declares hreached.declares hdef' hdef hkey
  rw [heq] at hfilled
  exact hfilled.showsDefinition

/-- Where no definition was reached, the node shows none. -/
theorem showsNoDefinition (hk : (p.graph.node id).isKind .record)
    (hnone : ∀ d, Reached s p (.declaration d .record) → Represents s p d .record id →
      ¬(s.unit.cursor d).isDefinition) : ShowsNoDefinition p id := by
  obtain ⟨d, hmade⟩ := h.exists_declaration hk (.inl rfl)
  cases hfilled : p.filled id with
  | none => exact (h.sound.isUnfilled hmade hfilled).showsNoDefinition
  | some d' =>
    obtain ⟨⟨c₁, hmade₁, hkey₁⟩, hdef', hreached'⟩ := h.filled _ _ hfilled
    obtain ⟨id', hid'⟩ := h.found hreached'
    have heq := (h.represents_eq_iff (h.represents hmade₁) hid').2 hkey₁
    exact absurd hdef' (hnone d' hreached' (heq ▸ hid'))

end Explains

/-- What a unit is converted to has one node for each record. -/
theorem TranslationUnit.records_of_compilation {u : TranslationUnit} {source : String}
    {options : ParseOptions} {c : Compilation} (hkeys : u.KeysTellKinds) (honce : u.DefinesOnce)
    (hc : u.compilation source options = .ok c) :
    ∃ p, Explains ⟨u, options⟩ source c p ∧ SingleRecords ⟨u, options⟩ p := by
  obtain ⟨p, h⟩ := u.exists_explains hkeys hc
  refine ⟨p, h, fun d hd => h.found hd, fun d d' id id' => h.represents_eq_iff, fun id hk => ?_,
    fun d id hd hdef hid => h.showsDefinition honce hd hdef hid, fun id => h.showsNoDefinition,
    fun id => h.listed⟩
  obtain ⟨d, hmade⟩ := h.exists_declaration hk (.inl rfl)
  exact ⟨d, (h.declared _ _ _ hmade).2.2, h.represents hmade⟩

/-- A list: its record is declared before it is defined, and a field of it points to it. -/
def linkedList : TranslationUnit where
  cursors := #[
    { Cursor.empty 3 with
      kind := .struct, spelling := "node", location := ⟨some "list.c", 1, 8, false⟩,
      identity := "c:@S@node", type? := some 0 },
    { Cursor.empty 3 with
      kind := .struct, spelling := "node", location := ⟨some "list.c", 2, 8, false⟩,
      identity := "c:@S@node", children := [2], type? := some 0, isDefinition := true },
    { Cursor.empty 3 with
      kind := .field, spelling := "next", location := ⟨some "list.c", 2, 30, false⟩,
      identity := "c:@S@node@FI@next", type? := some 2 }]
  types := #[
    { CType.invalid 3 3 with
      kind := ⟨"RECORD"⟩, spelling := "struct node", size := 8, declaration := 1 },
    { CType.invalid 3 3 with
      kind := ⟨"ELABORATED"⟩, spelling := "struct node", size := 8, namedType? := some 0 },
    { CType.invalid 3 3 with
      kind := ⟨"POINTER"⟩, spelling := "struct node *", size := 8, pointee? := some 1 }]
  top := [0, 1]
  remarks := []

/-- The record of a list is one node. -/
theorem singleRecords_linkedList :
    linkedList.KeysTellKinds ∧ linkedList.DefinesOnce ∧
      ∃ c, linkedList.compilation "list.c" default = .ok c ∧
        ∃ p, Explains ⟨linkedList, default⟩ "list.c" c p ∧ SingleRecords ⟨linkedList, default⟩ p := by
  have hkeys : linkedList.KeysTellKinds := by decide +kernel
  have honce : linkedList.DefinesOnce := by decide +kernel
  obtain ⟨c, hc⟩ : ∃ c, linkedList.compilation "list.c" default = .ok c :=
    exists_eq_ok_of_isOk (by decide +kernel)
  exact ⟨hkeys, honce, c, hc, linkedList.records_of_compilation hkeys honce hc⟩

end DeclGraph
