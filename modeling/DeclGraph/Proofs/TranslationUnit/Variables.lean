import DeclGraph.Proofs.TranslationUnit.Functions

/-!
# Initial values of variables

The expressions in a variable are the bounds of its declarator, one for each dimension that has one,
and behind them the initializer, if there is one (`IsDeclarator`); types and attributes may stand
anywhere among them.  The field of a variable takes the tokens of the last expression for its
initial value (`get_initial_of_run`).  So it has the initializer of its variable if there is one,
and none if there is neither an initializer nor a bound (`initial_of_run_fieldNode`).  The last
bound of an array without an initializer is taken for an initial value, though
(`initial_counts_of_bound`).
-/

namespace DeclGraph

open Account DeclGraph.Convert

variable {s : ConversionSetting} {p : Account}

/-- The expressions among the children of a cursor are the bounds of a declarator, in order, and the
initializer behind them, if there is one. -/
def TranslationUnit.IsDeclarator (u : TranslationUnit) (c : Cursor) (bounds : List Cursor)
    (initializer? : Option Cursor) : Prop :=
  (c.children.map u.cursor).filter (fun child => child.kind.isExpression)
    = bounds ++ initializer?.toList

/-- The initial value is read off the initializer, or off the last bound where there is none. -/
theorem TranslationUnit.initialValue_of_isDeclarator {u : TranslationUnit} {c : Cursor}
    {bounds : List Cursor} {initializer? : Option Cursor} (hvar : c.kind = .var)
    (h : u.IsDeclarator c bounds initializer?) :
    u.initialValue c
      = ((initializer?.or bounds.getLast?).map fun e => Value.text (spaced e.tokens)).getD .null := by
  have hlast : (c.children.filter fun child => (u.cursor child).kind.isExpression).getLast?.map
      u.cursor = initializer?.or bounds.getLast? := by
    rw [← List.getLast?_map]
    have hmap : (c.children.filter fun child => (u.cursor child).kind.isExpression).map u.cursor
        = bounds ++ initializer?.toList := by
      rw [← h, List.filter_map]
      rfl
    rw [hmap, List.getLast?_append]
    cases initializer? <;> rfl
  rw [initialValue, if_pos hvar, ← hlast, Option.map_map]
  cases (c.children.filter fun child => (u.cursor child).kind.isExpression).getLast? <;> rfl

/-! ### Fields of variables -/

/-- What a field has for its initial value stays as it was read. -/
theorem Leaves.initial_of_fieldWithin (p : Account) (fuel : Nat) (c : CursorId) (parent : Value) :
    Leaves p (fieldWithin s fuel c parent) fun id p' =>
      (p'.graph.node id).get "init_value" = s.unit.initialValue (s.unit.cursor c) := by
  cases fuel with
  | zero =>
    rw [fieldWithin]
    exact .throw _
  | succ fuel =>
    rw [fieldWithin]
    refine .reads_bind (.nameOf _) (.reads_bind (.typeOf _) ?_)
    refine (of_growing ((AllGrow.all s fuel).type _)).bind fun type p₁ _ => ?_
    have hspan : Growing ∅ (Convert.spanOf (s.unit.cursor c)) := .spanOf _
    refine .reads_bind (.initialValue _ _) ((of_growing hspan).bind fun span p₂ _ => ?_)
    refine .add_bind none ?_
    generalize hn : Node.make .field _ = n
    have hvalue : n.get "init_value" = s.unit.initialValue (s.unit.cursor c) := by
      rw [← hn]
      rfl
    have hclosed : n.isOpen = false := by
      rw [← hn]
      rfl
    have hattributes : Growing ∅ (Convert.addAttributes s.unit (.node p₂.graph.size)
        (s.unit.cursor c).children) := .addAttributes _ _ _
    refine (of_growing hattributes).bind fun attributes p₃ h₃ => .setField_bind (.pure ?_)
    -- the attributes are added to other nodes
    have hnode : p₃.graph.node p₂.graph.size = n := by
      have hnew := Graph.node_add_size p₂.graph n
      refine (h₃.node _ (by simp) (Set.notMem_empty _) ?_).trans hnew
      exact (congrArg Node.isOpen hnew).trans hclosed
    rw [Account.setField, Graph.node_setField_self, Node.get_set_of_ne _ (by decide), hnode, hvalue]

/-- The field of a variable has the initial value that its cursor tells of. -/
theorem Convert.get_initial_of_run {c : CursorId} {parent : Value} {σ σ' : Conversion} {id : NodeId}
    (hrun : (fieldNode s c parent).run σ = .ok (id, σ')) :
    (σ'.graph.node id).get "init_value" = s.unit.initialValue (s.unit.cursor c) := by
  obtain ⟨p', rfl, h⟩ := Leaves.initial_of_fieldWithin ⟨σ, fun _ => none, fun _ => none⟩
    s.unit.depthLimit c parent id σ' hrun
  exact h

/-- A field has the initializer of its variable. -/
theorem Convert.initial_of_run_fieldNode {c : CursorId} {parent : Value} {σ σ' : Conversion}
    {id : NodeId} {bounds : List Cursor} {initializer? : Option Cursor}
    (hvar : (s.unit.cursor c).kind = .var)
    (hdeclarator : s.unit.IsDeclarator (s.unit.cursor c) bounds initializer?)
    (hrun : (fieldNode s c parent).run σ = .ok (id, σ')) :
    (∀ e ∈ initializer?, (σ'.graph.node id).get "init_value" = .text (spaced e.tokens)) ∧
    (initializer? = none → bounds = [] → (σ'.graph.node id).get "init_value" = .null) ∧
    (initializer? = none → ∀ bound ∈ bounds.getLast?,
      (σ'.graph.node id).get "init_value" = .text (spaced bound.tokens)) := by
  have hvalue := get_initial_of_run hrun
  rw [s.unit.initialValue_of_isDeclarator hvar hdeclarator] at hvalue
  refine ⟨?_, ?_, ?_⟩
  · rintro e rfl
    exact hvalue
  · rintro rfl rfl
    exact hvalue
  · rintro rfl bound hbound
    rw [hvalue, Option.none_or, Option.mem_def.1 hbound]
    rfl

/-! ### Arrays -/

/-- An array of a defined type with a bound, an attribute and, if it is asked for, an initializer:
`count counts[2] __attribute__((unused)) = {3, 4};` -/
def counts (initialized : Bool) : TranslationUnit where
  cursors := #[
    { Cursor.empty 2 with
      kind := .var, spelling := "counts", location := ⟨some "counts.c", 2, 7, false⟩
      children := [1, 2, 3] ++ (if initialized then [4] else []), type? := some 1 },
    { Cursor.empty 2 with kind := ⟨"TYPE_REF"⟩, spelling := "count" },
    { Cursor.empty 2 with kind := ⟨"INTEGER_LITERAL"⟩, tokens := [⟨"2", 2, 14⟩] },
    { Cursor.empty 2 with
      kind := ⟨"UNEXPOSED_ATTR"⟩, tokens := [⟨"unused", 2, 32⟩] },
    { Cursor.empty 2 with
      kind := ⟨"INIT_LIST_EXPR"⟩
      tokens := [⟨"\x7b", 2, 43⟩, ⟨"3", 2, 44⟩, ⟨",", 2, 45⟩, ⟨"4", 2, 47⟩, ⟨"\x7d", 2, 48⟩] }]
  types := #[
    { CType.invalid 2 5 with kind := ⟨"INT"⟩, spelling := "int", size := 4 },
    { CType.invalid 2 5 with
      kind := ⟨"CONSTANTARRAY"⟩, spelling := "int[2]", size := 8, elementType? := some 0
      elementCount := 2 }]
  top := [0]
  remarks := []

/-- The bound of `counts`. -/
def countsBound : Cursor := (counts true).cursor 2

theorem exists_run_counts (initialized : Bool) :
    ∃ id σ', (fieldNode ⟨counts initialized, default⟩ 0 .null).run .start = .ok (id, σ') := by
  have hok : ((fieldNode ⟨counts initialized, default⟩ 0 .null).run .start).isOk = true := by
    cases initialized <;> decide +kernel
  obtain ⟨⟨id, σ'⟩, hrun⟩ := exists_eq_ok_of_isOk hok
  exact ⟨id, σ', hrun⟩

/-- Behind its bound the initializer is found. -/
theorem initial_of_run_counts :
    ∃ id σ', (fieldNode ⟨counts true, default⟩ 0 .null).run .start = .ok (id, σ') ∧
      (σ'.graph.node id).get "init_value" = .text "\x7b 3 , 4 \x7d" := by
  obtain ⟨id, σ', hrun⟩ := exists_run_counts true
  have hvar : ((counts true).cursor 0).kind = .var := by decide
  have hdeclarator : (counts true).IsDeclarator ((counts true).cursor 0) [countsBound]
      (some ((counts true).cursor 4)) := by
    rw [TranslationUnit.IsDeclarator]
    decide +kernel
  have hinitial := (Convert.initial_of_run_fieldNode hvar hdeclarator hrun).1 _ rfl
  exact ⟨id, σ', hrun, hinitial.trans (congrArg Value.text (by decide +kernel))⟩

/-- Without an initializer the bound is taken for one. -/
theorem initial_counts_of_bound :
    (counts false).IsDeclarator ((counts false).cursor 0) [countsBound] none ∧
      ∃ id σ', (fieldNode ⟨counts false, default⟩ 0 .null).run .start = .ok (id, σ') ∧
        (σ'.graph.node id).get "init_value" = .text "2" := by
  have hdeclarator : (counts false).IsDeclarator ((counts false).cursor 0) [countsBound] none := by
    rw [TranslationUnit.IsDeclarator]
    decide +kernel
  obtain ⟨id, σ', hrun⟩ := exists_run_counts false
  have hvalue := Convert.get_initial_of_run hrun
  rw [TranslationUnit.initialValue_of_isDeclarator (by decide) hdeclarator] at hvalue
  exact ⟨hdeclarator, id, σ', hrun, hvalue.trans (congrArg Value.text (by decide +kernel))⟩

end DeclGraph
