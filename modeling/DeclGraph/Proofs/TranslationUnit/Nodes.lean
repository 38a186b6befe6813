import DeclGraph.Proofs.Encoding.Renaming
import DeclGraph.Proofs.Once
import DeclGraph.TranslationUnit.Conversion

/-!
# Nodes under construction

The parent of a declaration may be told at any time, so what is said about a node leaves its parent
out: `Node.core`.  Lists of nodes grow at their end (`appended_nodes`), those that hold a node once
by `eraseDups` (`refersTo_nodes`).
-/

namespace DeclGraph

namespace Node

/-- A node without its parent. -/
def core (n : Node) : Node := { n with fields := n.fields.filter fun e => e.1 != "parent" }

theorem shape_core (n : Node) : n.core.shape = n.shape := rfl

theorem core_set (n : Node) (name : String) (v : Value) :
    (n.set name v).core = n.core.set name v := by
  simp only [core, set, List.filter_map, mk.injEq, true_and]
  rfl

theorem core_set_parent (n : Node) (v : Value) : (n.set "parent" v).core = n.core := by
  rw [core_set]
  simp only [core, set, mk.injEq, true_and]
  conv_rhs => rw [← List.map_id (n.fields.filter fun e => e.1 != "parent")]
  refine List.map_congr_left fun e he => ?_
  have hne : e.1 ≠ "parent" := by simpa using (List.mem_filter.1 he).2
  rw [if_neg hne, id]

/-- Any other field is the same without the parent. -/
theorem get_core (n : Node) {name : String} (h : name ≠ "parent") : n.core.get name = n.get name := by
  suffices hs : ∀ fields : List (String × Value),
      Entries.get? name (fields.filter fun e => e.1 != "parent") = Entries.get? name fields by
    rw [get, get?, core, hs, get, get?]
  intro fields
  induction fields with
  | nil => rfl
  | cons e rest ih =>
    obtain ⟨k, v⟩ := e
    by_cases hk : k = "parent"
    · subst hk
      rw [List.filter_cons_of_neg (by simp), ih, Entries.get?, if_neg (Ne.symm h)]
    · rw [List.filter_cons_of_pos (by simpa using hk), Entries.get?, Entries.get?, ih]

theorem get_of_core {n n' : Node} (h : n.core = n'.core) {name : String} (hname : name ≠ "parent") :
    n.get name = n'.get name := by rw [← get_core n hname, h, get_core n' hname]

theorem isKind_of_core {n n' : Node} (h : n.core = n'.core) (k : Kind) :
    n.isKind k = n'.isKind k := by rw [isKind, ← shape_core, h, shape_core, isKind]

/-! ### Fields that are set -/

theorem get?_set (n : Node) (name other : String) (v : Value) :
    (n.set name v).get? other = if other = name then (n.get? other).map fun _ => v
      else n.get? other := by
  rw [get?, get?, set]
  induction n.fields with
  | nil => split_ifs <;> rfl
  | cons e rest ih =>
    obtain ⟨key, old⟩ := e
    simp only [List.map_cons, Entries.get?, ih]
    split_ifs <;> simp_all

/-- A field that a node has shows what was put into it. -/
theorem get_set_self {n : Node} {name : String} (h : name ∈ n.fieldNames) (v : Value) :
    (n.set name v).get name = v := by
  rw [get, get?, set]
  rw [fieldNames] at h
  induction hfields : n.fields generalizing n with
  | nil => simp [hfields] at h
  | cons e rest ih =>
    obtain ⟨key, old⟩ := e
    rw [hfields, List.map_cons, List.mem_cons] at h
    rw [List.map_cons, Entries.get?]
    by_cases hkey : key = name
    · rw [if_pos hkey, if_pos hkey, Option.getD_some]
    · rw [if_neg hkey]
      exact @ih ⟨n.shape, rest⟩ (h.resolve_left (Ne.symm hkey)) rfl

end Node

/-- Behind the end of a graph there are no nodes. -/
theorem Graph.lt_size_of_node_ne {g : Graph} {id : NodeId} (h : g.node id ≠ .absent) :
    id < g.size := by
  by_contra hle
  rw [node, Array.getD_eq_getD_getElem?, Array.getElem?_eq_none (not_lt.1 hle)] at h
  exact h rfl

/-! ### Lists of nodes -/

namespace Convert

/-- A list of nodes grows at its end. -/
theorem appended_nodes (ids : List NodeId) (id : NodeId) :
    appended (.nodes ids) (.node id) = .nodes (ids ++ [id]) := by
  simp [appended, Value.nodes, Value.items?]

/-- A list of nodes refers to those in it. -/
theorem refersTo_nodes (ids : List NodeId) (id : NodeId) :
    refersTo (.nodes ids) id = decide (id ∈ ids) := by
  rw [Bool.eq_iff_iff]
  simp [refersTo, Value.nodes, Value.items?]

end Convert

end DeclGraph
