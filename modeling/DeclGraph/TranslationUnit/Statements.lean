import DeclGraph.TranslationUnit.Declarations
import DeclGraph.TranslationUnit.Tree

/-!
# Converting statements

A body may be nested deeper than anything else, so its statements are converted from a stack of
cursors whose node is there and whose children are not (`Convert.expand`).  The cursors on the stack
grow fewer with every step.
-/

namespace DeclGraph

namespace Convert

/-- The node of a statement or an expression, without what is in it.  Only expressions have a
type. -/
def statementNode (s : ConversionSetting) (parent : Value) (cursor : CursorId) : Convert NodeId := do
  let c := s.unit.cursor cursor
  let kind ← kindOf c
  let spelling ← nameOf c
  let span ← spanOf c
  let id ← add (.make .statement
    [("kind", .text kind.lowerName), ("spelling", .text spelling), ("span", span), ("parent", parent)])
  if kind.isExpression then setField id "type" (← typeNode s (← typeOf c))
  return id

/-- The nodes of statements, without what is in them. -/
def statementNodes (s : ConversionSetting) (parent : Value) : List CursorTree → Convert (List NodeId)
  | [] => return []
  | t :: rest => do
    let id ← statementNode s parent t.id
    return id :: (← statementNodes s parent rest)

/-- A stack of cursors with their nodes; what is below these cursors has no nodes yet. -/
abbrev Pending := List (CursorTree × NodeId)

/-- The number of cursors below those on a stack, themselves counted. -/
def weight (pending : Pending) : Nat := CursorTree.sizes (pending.map Prod.fst)

/-- Cursors with nodes weigh no more than the cursors. -/
theorem weight_zip_le (trees : List CursorTree) (ids : List NodeId) :
    weight (trees.zip ids) ≤ CursorTree.sizes trees := by
  induction trees generalizing ids with
  | nil => simp [weight, CursorTree.sizes]
  | cons t rest ih =>
    cases ids with
    | nil => simp [weight, CursorTree.sizes]
    | cons id ids =>
      have := ih ids
      simp only [weight, List.zip_cons_cons, List.map_cons, CursorTree.sizes] at this ⊢
      omega

/-- Adds the nodes below those on a stack. -/
def expand (s : ConversionSetting) : Pending → Convert Unit
  | [] => return ()
  | (t, id) :: rest => do
    let ids ← statementNodes s (.node id) t.children
    setField id "children" (.nodes ids)
    expand s ((t.children.zip ids).reverse ++ rest)
termination_by pending => weight pending
decreasing_by
  have below := weight_zip_le t.children ids
  have top := t.size_eq
  simp only [weight, List.map_append, List.map_reverse, CursorTree.sizes_append,
    CursorTree.sizes_reverse, List.map_cons, CursorTree.sizes] at below ⊢
  omega

/-- The node of a statement with everything in it. -/
def addStatement (s : ConversionSetting) (parent : Value) (t : CursorTree) : Convert NodeId := do
  let id ← statementNode s parent t.id
  expand s [(t, id)]
  return id

/-- The nodes of statements with everything in them. -/
def addStatements (s : ConversionSetting) (parent : Value) : List CursorTree → Convert (List NodeId)
  | [] => return []
  | t :: rest => do
    let id ← addStatement s parent t
    return id :: (← addStatements s parent rest)

end Convert

end DeclGraph
