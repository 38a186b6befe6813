import DeclGraph.Proofs.TranslationUnit.Raising

/-!
# Parents of declarations

What a node of a compilation contains, in any of its lists, has a parent that contains it
(`parent_of_contains`).  For most declarations there is only one such node.  A record, an
enumeration or a defined type may be contained in several ones, as it is one node wherever it is
met.  It keeps the parent that it got first, so of the nodes that contain it the parent is one that
does so at the earliest stage: when the first cursors at the top have been converted
(`TranslationUnit.stage`), however many these are.

A record that only stands in types gets no parent from there.  If it is defined at the top
afterwards its parent is the compilation; if it was declared in another record before, its parent is
that one (`parent_ne_nested`).
-/

namespace DeclGraph

/-! ### Stages of a conversion -/

namespace Convert

theorem run_bind_of_eq_ok {α β : Type} {x : Convert α} {f : α → Convert β} {a : α}
    {σ σ' : Conversion} (h : x.run σ = .ok (a, σ')) : (x >>= f).run σ = (f a).run σ' := by
  rw [StateT.run_bind, h]
  rfl

/-- The compilation of a unit, with nothing in it but the remarks. -/
def beginUnit (s : ConversionSetting) (source : String) : Convert NodeId := do
  let remarks ← s.unit.remarks.mapM addRemark
  add (.make .compilation [("input_file", .text source), ("diagnostics", .nodes remarks)])

/-- The compilation of a unit of which only some cursors at the top are converted. -/
def convertTop (s : ConversionSetting) (source : String) (top : List CursorId) :
    Convert NodeId := do
  let id ← beginUnit s source
  visitTop s id top
  return id

theorem convertUnit_eq (s : ConversionSetting) (source : String) :
    convertUnit s source = convertTop s source s.unit.top := by
  simp only [convertUnit, convertTop, beginUnit, bind_assoc]

theorem visitTop_append (s : ConversionSetting) (id : NodeId) (top rest : List CursorId) :
    visitTop s id (top ++ rest) = (do
      visitTop s id top
      visitTop s id rest) := by
  induction top with
  | nil => simp only [List.nil_append, visitTop, pure_bind]
  | cons cursor top ih =>
    simp only [List.cons_append, visitTop, ih, bind_assoc, ite_bind]

end Convert

/-- What a unit has become when the first of the cursors at its top have been converted. -/
def TranslationUnit.stage (u : TranslationUnit) (source : String) (options : ParseOptions)
    (count : Nat) : Except Fault Compilation :=
  match (Convert.convertTop ⟨u, options⟩ source (u.top.take count)).run .start with
  | .ok (id, σ) => .ok ⟨σ.graph, .node id⟩
  | .error e => .error e

namespace Graph.Raises

variable {s : ConversionSetting} {g₀ : Graph} {P : Set (NodeId × NodeId)} {p : Account}

/-- What there is before anything at the top has been visited. -/
theorem beginUnit (h : g₀.Raises P p.graph) (source : String) :
    Leaves p (Convert.beginUnit s source) fun id p' =>
      (p'.graph.node id).isKind .compilation ∧ g₀.Raises P p'.graph :=
  (h.addRemarks _).bind fun _ _ h₁ => (h₁.addOf (Node.isBare_make _ rfl) rfl).mono
    fun _ _ ⟨hid, h₂, _⟩ => ⟨hid, h₂⟩

end Graph.Raises

/-! ### Parents in a compilation -/

namespace TranslationUnit

variable {u : TranslationUnit} {source : String} {options : ParseOptions} {c : Compilation}

theorem stage_length (u : TranslationUnit) (source : String) (options : ParseOptions) :
    u.stage source options u.top.length = u.compilation source options := by
  have htop : Convert.convertTop ⟨u, options⟩ source (u.top.take u.top.length)
      = Convert.convertUnit ⟨u, options⟩ source := by
    rw [List.take_length]
    exact (Convert.convertUnit_eq ..).symm
  rw [stage, htop]
  rfl

/-- Every stage of a conversion comes to something if the whole conversion does, in each of them
everything is listed by its parent, and it keeps this parent to the end. -/
theorem exists_stage (hc : u.compilation source options = .ok c) (count : Nat) :
    ∃ c₁, u.stage source options count = .ok c₁ ∧ c₁.graph.Families ∅ ∧
      c₁.graph.Raises ∅ c.graph := by
  unfold compilation at hc
  rw [Convert.convertUnit_eq] at hc
  split at hc
  · next root σ hrun =>
    obtain rfl := Except.ok.inj hc
    rw [Convert.convertTop, StateT.run_bind] at hrun
    obtain ⟨⟨id, σ₀⟩, hbegin, hrun⟩ := exists_of_bind_eq_ok hrun
    rw [StateT.run_bind] at hrun
    obtain ⟨⟨_, σ'⟩, hvisit, hrun⟩ := exists_of_bind_eq_ok hrun
    obtain ⟨rfl, rfl⟩ := Prod.mk.inj (Except.ok.inj hrun)
    -- the visit of everything at the top is one of the first cursors and one of the others
    have hparts := u.top.take_append_drop count
    rw [← hparts, Convert.visitTop_append, StateT.run_bind] at hvisit
    obtain ⟨⟨_, σ₁⟩, hfirst, hlast⟩ := exists_of_bind_eq_ok hvisit
    obtain ⟨p₀, rfl, hid, h₀⟩ := Graph.Raises.beginUnit (p := .start)
      (.refl (.empty ∅)) source id σ₀ hbegin
    obtain ⟨p₁, rfl, h₁⟩ := h₀.here.visitTop hid _ _ σ₁ hfirst
    obtain ⟨p₂, rfl, h₂⟩ := h₁.here.visitTop (h₁.abides.kind id _ hid) _ _ σ' hlast
    refine ⟨⟨p₁.graph, .node id⟩, ?_, h₁.families, h₂⟩
    have hstage : (Convert.convertTop ⟨u, options⟩ source (u.top.take count)).run .start =
        .ok (id, p₁.toConversion) := by
      rw [Convert.convertTop, Convert.run_bind_of_eq_ok hbegin, Convert.run_bind_of_eq_ok hfirst]
      rfl
    rw [stage, hstage]
  · exact absurd hc (by simp)

/-- Whatever is contained in a node of a compilation has a parent that contains it.  This is the
node, or what is contained is a record, an enumeration or a defined type; then no other node
contains it at a stage of the conversion at which its parent does not. -/
theorem parent_of_contains (hc : u.compilation source options = .ok c) {n x : NodeId}
    (hx : c.graph.Contains n x) :
    ∃ q, c.graph.parent x = .node q ∧ c.graph.Contains q x ∧
      (q = n ∨ ∃ k ∈ [Kind.record, Kind.enum, Kind.typedef], (c.graph.node x).isKind k) ∧
      ∀ count, ∃ c₁, u.stage source options count = .ok c₁ ∧
        ∀ m, c₁.graph.Contains m x → c₁.graph.Contains q x := by
  obtain ⟨c', hc', hfamilies, -⟩ := exists_stage hc u.top.length
  obtain rfl := Except.ok.inj ((stage_length ..).symm.trans hc' |>.symm.trans hc)
  obtain ⟨q, hq, hcontains, hkind⟩ := hfamilies.exists_parent hx
  refine ⟨q, hq, hcontains, hkind, fun count => ?_⟩
  obtain ⟨c₁, hc₁, h₁, hraises⟩ := exists_stage hc count
  refine ⟨c₁, hc₁, fun m hm => ?_⟩
  -- what is contained at the stage has a parent there, and keeps it
  obtain ⟨q', hq', hcontains', -⟩ := h₁.exists_parent hm
  obtain rfl := Value.node.inj ((hraises.abides.parent x q' hq').symm.trans hq)
  exact hcontains'

end TranslationUnit

/-- A record is declared in another one, where a field points to it, and defined behind that. -/
def nested : TranslationUnit where
  cursors := #[
    { Cursor.empty 3 with
      kind := .struct, spelling := "outer", location := ⟨some "nested.c", 1, 8, false⟩,
      identity := "c:@S@outer", children := [1, 2], type? := some 1, isDefinition := true },
    { Cursor.empty 3 with
      kind := .struct, spelling := "inner", location := ⟨some "nested.c", 1, 23, false⟩,
      identity := "c:@S@inner", type? := some 0 },
    { Cursor.empty 3 with
      kind := .field, spelling := "next", location := ⟨some "nested.c", 1, 30, false⟩,
      identity := "c:@S@outer@FI@next", type? := some 2 },
    { Cursor.empty 3 with
      kind := .struct, spelling := "inner", location := ⟨some "nested.c", 2, 8, false⟩,
      identity := "c:@S@inner", type? := some 0, isDefinition := true }]
  types := #[
    { CType.invalid 3 4 with kind := ⟨"RECORD"⟩, spelling := "struct inner", declaration := 3 },
    { CType.invalid 3 4 with
      kind := ⟨"RECORD"⟩, spelling := "struct outer", size := 8, declaration := 0 },
    { CType.invalid 3 4 with
      kind := ⟨"POINTER"⟩, spelling := "struct inner *", size := 8, pointee? := some 0 }]
  top := [0, 3]
  remarks := []

theorem shown_nested :
    ∃ c, nested.compilation "nested.c" default = .ok c ∧ c.graph.Contains 0 11 ∧
      c.graph.parent 11 = .node 4 := by
  obtain ⟨c, hc⟩ : ∃ c, nested.compilation "nested.c" default = .ok c :=
    exists_eq_ok_of_isOk (by decide +kernel)
  have hshown : ((nested.compilation "nested.c" default).toOption.any fun c =>
      Convert.refersTo ((c.graph.node 0).get "classes") 11 &&
        Convert.refersTo (.list [c.graph.parent 11]) 4) = true := by
    decide +kernel
  rw [hc] at hshown
  obtain ⟨hlisted, hparent⟩ := Bool.and_eq_true_iff.1 hshown
  refine ⟨c, hc, ⟨"classes", by decide, Value.refersTo_iff.1 hlisted⟩, ?_⟩
  exact (List.mem_singleton.1 (Value.refersTo_iff.1 hparent)).symm

/-- No stage lists the record before its parent does. -/
theorem parent_of_contains_nested :
    ∃ c, nested.compilation "nested.c" default = .ok c ∧ c.graph.Contains 0 11 ∧
      ∃ q, c.graph.parent 11 = .node q ∧ c.graph.Contains q 11 ∧
        (q = 0 ∨ ∃ k ∈ [Kind.record, Kind.enum, Kind.typedef], (c.graph.node 11).isKind k) ∧
        ∀ count, ∃ c₁, nested.stage "nested.c" default count = .ok c₁ ∧
          ∀ m, c₁.graph.Contains m 11 → c₁.graph.Contains q 11 := by
  obtain ⟨c, hc, hcontains, -⟩ := shown_nested
  exact ⟨c, hc, hcontains, TranslationUnit.parent_of_contains hc hcontains⟩

/-- The compilation contains the record that is defined in it, but is not its parent. -/
theorem parent_ne_nested :
    ∃ c, nested.compilation "nested.c" default = .ok c ∧
      ∃ n x, c.graph.Contains n x ∧ c.graph.parent x ≠ .node n := by
  obtain ⟨c, hc, hcontains, hparent⟩ := shown_nested
  exact ⟨c, hc, 0, 11, hcontains, by simp [hparent]⟩

end DeclGraph
