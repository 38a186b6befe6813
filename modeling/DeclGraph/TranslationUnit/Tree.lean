import DeclGraph.TranslationUnit.Basic

/-!
# Trees of cursors

A cursor with all the cursors below it.  `TranslationUnit.tree` unfolds the cursors of a unit to a
depth that no path without a repetition can exceed.
-/

namespace DeclGraph

/-- A cursor with the cursors below it. -/
inductive CursorTree
  | node (id : CursorId) (children : List CursorTree)
deriving Repr

namespace CursorTree

/-- The cursor at the top. -/
def id : CursorTree → CursorId
  | node id _ => id

/-- The trees right below. -/
def children : CursorTree → List CursorTree
  | node _ children => children

mutual

/-- The number of cursors. -/
def size : CursorTree → Nat
  | node _ children => 1 + sizes children

/-- The number of cursors of trees. -/
def sizes : List CursorTree → Nat
  | [] => 0
  | t :: rest => size t + sizes rest

end

/-- Trees one after another have their cursors together. -/
theorem sizes_append (a b : List CursorTree) : sizes (a ++ b) = sizes a + sizes b := by
  induction a with
  | nil => simp [sizes]
  | cons t rest ih => simp [sizes, ih, Nat.add_assoc]

/-- The order of trees does not change their number of cursors. -/
theorem sizes_reverse (a : List CursorTree) : sizes a.reverse = sizes a := by
  induction a with
  | nil => rfl
  | cons t rest ih => simp [sizes_append, sizes, ih, Nat.add_comm]

/-- A tree has the cursor at its top and those below it. -/
theorem size_eq (t : CursorTree) : t.size = 1 + sizes t.children := by
  cases t; rfl

end CursorTree

namespace TranslationUnit

/-- The cursors below a cursor, to a depth. -/
def treeWithin (u : TranslationUnit) : Nat → CursorId → CursorTree
  | 0, id => .node id []
  | depth + 1, id => .node id ((u.cursor id).children.map (treeWithin u depth))

/-- The tree of a cursor. -/
def tree (u : TranslationUnit) (id : CursorId) : CursorTree := u.treeWithin u.cursors.size id

end TranslationUnit

end DeclGraph
