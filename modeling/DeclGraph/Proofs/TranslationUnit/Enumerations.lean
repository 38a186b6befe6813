import DeclGraph.Proofs.TranslationUnit.Outcome

/-!
# Enumerations are what was met first

An enumeration becomes one node for each key as well, but the node stays what it was made from: it
shows the constants of one of the cursors that were reached, whether or not that one is the
definition (`SingleEnumerations`, `enumerations_of_compilation`).  Where all of them tell of the same
constants nothing is lost; behind a declaration without constants those of the definition are
(`constants_colors`).
-/

namespace DeclGraph

open Account

variable (s : ConversionSetting) (p : Account)

/-- The node shows the size and the constants that a cursor tells of, one item for each. -/
def ShowsConstants (c : CursorId) (id : NodeId) : Prop :=
  ∃ items, (p.graph.node id).get "size_of" = .int (s.unit.sizeOf (s.unit.cursor c)) ∧
    (p.graph.node id).get "items" = .nodes items ∧ items.Nodup ∧
    Picks (fun id c => p.made id = some (.enumItem (s.unit.cursor c)))
      (fun c => (s.unit.cursor c).kind == .enumConstant) items (s.unit.cursor c).children

/-- Each enumeration is one node, which shows one of the cursors that were reached. -/
structure SingleEnumerations : Prop where
  /-- An enumeration that was reached has a node. -/
  found : ∀ d, Reached s p (.declaration d .enum) → ∃ id, Represents s p d .enum id
  /-- Two declarations have one node if they have one key, and not otherwise. -/
  same : ∀ d d' id id', Represents s p d .enum id → Represents s p d' .enum id' →
    (id = id' ↔ (s.unit.cursor d).key = (s.unit.cursor d').key)
  /-- Every enumeration shows a cursor that was reached. -/
  met : ∀ id, (p.graph.node id).isKind .enum →
    ∃ c, Reached s p (.declaration c .enum) ∧ Represents s p c .enum id ∧ ShowsConstants s p c id
  /-- Where all cursors that were reached tell the same, the node shows it. -/
  complete : ∀ d id, Reached s p (.declaration d .enum) → Represents s p d .enum id →
    (∀ c, Reached s p (.declaration c .enum) → (s.unit.cursor c).key = (s.unit.cursor d).key →
      (s.unit.cursor c).children = (s.unit.cursor d).children ∧
        s.unit.sizeOf (s.unit.cursor c) = s.unit.sizeOf (s.unit.cursor d)) →
    ShowsConstants s p d id

variable {s p} {id : NodeId}

theorem ShowsConstants.congr {c d : CursorId} (h : ShowsConstants s p c id)
    (hchildren : (s.unit.cursor c).children = (s.unit.cursor d).children)
    (hsize : s.unit.sizeOf (s.unit.cursor c) = s.unit.sizeOf (s.unit.cursor d)) :
    ShowsConstants s p d id := by
  rw [ShowsConstants, ← hchildren, ← hsize]
  exact h

theorem IsEnumOf.showsConstants {c : CursorId}
    (h : IsEnumOf s p (s.unit.cursor c) (s.unit.cursor c).children id) : ShowsConstants s p c id := by
  obtain ⟨_, _, items, hshows, _, _, hitems, hnodup⟩ := h
  exact ⟨items, hshows.get (by decide), hshows.get (by decide), hnodup, hitems⟩

/-- The enumerations that a unit is converted to show what was met. -/
theorem TranslationUnit.enumerations_of_compilation {u : TranslationUnit} {source : String}
    {options : ParseOptions} {c : Compilation} (hkeys : u.KeysTellKinds)
    (hc : u.compilation source options = .ok c) :
    ∃ p, Explains ⟨u, options⟩ source c p ∧ SingleEnumerations ⟨u, options⟩ p := by
  obtain ⟨p, h⟩ := u.exists_explains hkeys hc
  have met : ∀ id d, p.made id = some (.declaration d .enum) →
      Reached ⟨u, options⟩ p (.declaration d .enum) ∧ ShowsConstants ⟨u, options⟩ p d id :=
    fun id d hmade => ⟨(h.declared _ _ _ hmade).2.2,
      IsEnumOf.showsConstants (s := ⟨u, options⟩) (h.mirrors _ _ hmade)⟩
  refine ⟨p, h, fun d hd => h.found hd, fun d d' id id' => h.represents_eq_iff, fun id hk => ?_,
    fun d id hd hid hall => ?_⟩
  · obtain ⟨d, hmade⟩ := h.exists_declaration hk (.inr rfl)
    exact ⟨d, (met id d hmade).1, h.represents hmade, (met id d hmade).2⟩
  · obtain ⟨c, hmade, hkey⟩ := h.sound.made_of_get? hkeys hd hid.1
    obtain ⟨hreached, hshows⟩ := met id c hmade
    obtain ⟨hchildren, hsize⟩ := hall c hreached hkey
    exact hshows.congr hchildren hsize

/-! ### A definition behind a declaration -/

/-- The names of the constants of the enumerations in a compilation. -/
def Compilation.constants (c : Compilation) : List (List String) :=
  let nameOf : Value → String
    | .node id => c.graph.plain ((c.graph.node id).get "name")
    | _ => ""
  (c.graph.nodes.toList.filter (·.isKind .enum)).map fun n =>
    (((n.get "items").items?).getD []).map nameOf

/-- An enumeration of colours: its first cursor declares it without constants, its second one
defines it with two. -/
def colors (top : List CursorId) : TranslationUnit where
  cursors := #[
    { Cursor.empty 2 with
      kind := .enum, spelling := "color", location := ⟨some "color.c", 1, 6, false⟩,
      identity := "c:@E@color", type? := some 0, enumType? := some 1 },
    { Cursor.empty 2 with
      kind := .enum, spelling := "color", location := ⟨some "color.c", 2, 6, false⟩,
      identity := "c:@E@color", children := [2, 3], type? := some 0, enumType? := some 1,
      isDefinition := true },
    { Cursor.empty 2 with
      kind := .enumConstant, spelling := "RED", location := ⟨some "color.c", 2, 14, false⟩ },
    { Cursor.empty 2 with
      kind := .enumConstant, spelling := "BLUE", location := ⟨some "color.c", 2, 19, false⟩,
      enumValue := 1 }]
  types := #[
    { CType.invalid 2 4 with kind := ⟨"ENUM"⟩, spelling := "enum color", size := 4, declaration := 1 },
    { CType.invalid 2 4 with kind := ⟨"UINT"⟩, spelling := "unsigned int", size := 4 }]
  top := top
  remarks := []

/-- The constants of a definition are there if the definition comes first, and not otherwise. -/
theorem constants_colors :
    ((colors [1, 0]).compilation "color.c" default).toOption.map Compilation.constants
        = some [["RED", "BLUE"]] ∧
      ((colors [0, 1]).compilation "color.c" default).toOption.map Compilation.constants
        = some [[]] := by
  decide +kernel

/-- Even where the constants are lost, there is one enumeration, made from a cursor of it. -/
theorem singleEnumerations_colors :
    (colors [0, 1]).KeysTellKinds ∧
      ∃ c, (colors [0, 1]).compilation "color.c" default = .ok c ∧
        ∃ p, Explains ⟨colors [0, 1], default⟩ "color.c" c p ∧
          SingleEnumerations ⟨colors [0, 1], default⟩ p := by
  have hkeys : (colors [0, 1]).KeysTellKinds := by decide +kernel
  obtain ⟨c, hc⟩ : ∃ c, (colors [0, 1]).compilation "color.c" default = .ok c :=
    exists_eq_ok_of_isOk (by decide +kernel)
  exact ⟨hkeys, c, hc, TranslationUnit.enumerations_of_compilation hkeys hc⟩

end DeclGraph
