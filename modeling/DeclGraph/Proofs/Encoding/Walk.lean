import DeclGraph.Proofs.Encoding.Reachability
import DeclGraph.Proofs.Except

/-!
# Walks through a graph

Both walks of encoding pop a value from a stack and push what comes next, and both follow the
selected fields of a node once.  `Walk` says what holds in between: what was visited and what the
stack still refers to are, together, the references in the root and in the nodes followed so far
(`Walk.perm`), and the fuel that is left outlasts the stack (`Walk.enough`).  The order of the
stack does not matter, so one step lemma for each kind of value serves both walks.

In the end the nodes that were followed are the reached ones (`Walk.mem_iff_of_nil`), and
`isShared_iff` says that counting visits finds the nodes that are reached more than once.
`Graph.exists_run_of_encode` takes a document apart into the two walks that it comes from.
-/

namespace DeclGraph

namespace Encoding

variable {g : Graph} {rules : Rules} {root : Value}

/-- A walk from `root` in between: `stack` holds the values to come, `visits` the nodes visited so
far and `followed` those whose fields were followed. -/
structure Walk (g : Graph) (rules : Rules) (root : Value) (fuel : Nat) (stack : List Value)
    (visits followed : List NodeId) : Prop where
  /-- No node is followed again. -/
  nodup : followed.Nodup
  /-- The visited nodes are those that were followed. -/
  mem_iff : ∀ id, id ∈ followed ↔ id ∈ visits
  /-- Every reference in the root and in a followed node was visited or is still to come. -/
  perm : (visits ++ stack.flatMap Value.references).Perm (referencesOf g rules root followed)
  /-- Only reached nodes are visited. -/
  reaches : ∀ id ∈ visits ++ stack.flatMap Value.references, Reaches g rules root id
  /-- There is a step for every place to come. -/
  enough : (stack.map Value.size).sum + g.places
    ≤ fuel + (followed.map fun id => weight (g.node id)).sum

namespace Walk

variable {fuel : Nat} {stack stack' : List Value} {visits followed : List NodeId} {id : NodeId}

theorem start (g : Graph) (rules : Rules) (root : Value) :
    Walk g rules root (steps g root) [root] [] [] where
  nodup := List.nodup_nil
  mem_iff _ := Iff.rfl
  perm := by simp [referencesOf]
  reaches id h := .root (by simpa using h)
  enough := by simp [steps]

/-- A value that is no node is replaced by its parts. -/
theorem pass {v : Value} (w : Walk g rules root (fuel + 1) (v :: stack) visits followed)
    (hv : ∀ id, v ≠ .node id) (hstack : stack'.Perm (parts v ++ stack)) :
    Walk g rules root fuel stack' visits followed := by
  have hrefs : (stack'.flatMap Value.references).Perm
      ((v :: stack).flatMap Value.references) := by
    rw [List.flatMap_cons, Value.references_eq_parts hv, ← List.flatMap_append]
    exact hstack.flatMap_right _
  refine ⟨w.nodup, w.mem_iff, (hrefs.append_left _).trans w.perm, fun id h => w.reaches id ?_, ?_⟩
  · exact (hrefs.append_left _).subset h
  · have hsize : (stack'.map Value.size).sum = ((parts v).map Value.size).sum
        + (stack.map Value.size).sum := by
      rw [(hstack.map _).sum_eq, List.map_append, List.sum_append]
    have := w.enough
    rw [List.map_cons, List.sum_cons, v.size_eq_parts] at this
    omega

/-- A node that was followed already is only counted. -/
theorem again (w : Walk g rules root (fuel + 1) (.node id :: stack) visits followed)
    (hid : id ∈ followed) : Walk g rules root fuel stack (id :: visits) followed := by
  have hperm : (id :: visits ++ stack.flatMap Value.references).Perm
      (visits ++ (Value.node id :: stack).flatMap Value.references) := by
    rw [List.flatMap_cons, Value.references_node]
    exact List.perm_middle.symm
  refine ⟨w.nodup, fun m => ?_, hperm.trans w.perm, fun m h => w.reaches m (hperm.subset h), ?_⟩
  · rw [w.mem_iff, List.mem_cons]
    refine ⟨.inr, ?_⟩
    rintro (rfl | h)
    · exact (w.mem_iff _).1 hid
    · exact h
  · have := w.enough
    simp only [List.map_cons, List.sum_cons, Value.size] at this
    omega

/-- A node that was not followed yet is replaced by the values in its selected fields. -/
theorem follow (w : Walk g rules root (fuel + 1) (.node id :: stack) visits followed)
    (hg : g.IsProper) (hid : id ∉ followed) {names : List String}
    (hnames : rules.fieldsFor (g.node id).schema = .ok names)
    (hstack : stack'.Perm (names.map (g.node id).get ++ stack)) :
    Walk g rules root fuel stack' (id :: visits) (followed ++ [id]) := by
  have hout : outgoing g rules id = (names.map (g.node id).get).flatMap Value.references := by
    rw [outgoing, selectedValues_eq hnames]
  have hreach : Reaches g rules root id := w.reaches id (by simp)
  have hrefs : (stack'.flatMap Value.references).Perm
      (outgoing g rules id ++ stack.flatMap Value.references) := by
    rw [hout, ← List.flatMap_append]
    exact hstack.flatMap_right _
  have hold : (id :: visits ++ stack.flatMap Value.references).Perm
      (referencesOf g rules root followed) := by
    have := w.perm
    rw [List.flatMap_cons, Value.references_node] at this
    exact List.perm_middle.symm.trans this
  refine ⟨?_, fun m => ?_, ?_, fun m h => ?_, ?_⟩
  · rw [← List.concat_eq_append]
    exact w.nodup.concat hid
  · rw [List.mem_append, List.mem_singleton, w.mem_iff, List.mem_cons, or_comm]
  · have hnew : referencesOf g rules root (followed ++ [id])
        = referencesOf g rules root followed ++ outgoing g rules id := by
      simp [referencesOf]
    rw [hnew]
    refine List.Perm.trans ?_ (hold.append_right _)
    rw [List.append_assoc]
    exact (hrefs.trans List.perm_append_comm).append_left _
  · rcases List.mem_append.1 h with h | h
    · rcases List.mem_cons.1 h with rfl | h
      · exact hreach
      · exact w.reaches m (List.mem_append_left _ h)
    · rcases List.mem_append.1 (hrefs.subset h) with h | h
      · exact .field hreach h
      · exact w.reaches m (List.mem_append_right _ (by simp [h]))
  · have hsize : (stack'.map Value.size).sum
        = ((names.map (g.node id).get).map Value.size).sum + (stack.map Value.size).sum := by
      rw [(hstack.map _).sum_eq, List.map_append, List.sum_append]
    have hle := sum_size_selected_le (hg.node id) hnames
    have := w.enough
    simp only [List.map_cons, List.sum_cons, Value.size] at this
    rw [List.map_append, List.sum_append, List.map_singleton, List.sum_singleton]
    omega

/-- A walk without steps left has nothing left to do. -/
theorem stack_eq_nil (w : Walk g rules root 0 stack visits followed) : stack = [] := by
  cases stack with
  | nil => rfl
  | cons v rest =>
    have hsize := v.size_eq_parts
    have hle := sum_weight_le g w.nodup
    have := w.enough
    rw [List.map_cons, List.sum_cons] at this
    omega

theorem perm_of_nil (w : Walk g rules root fuel [] visits followed) :
    visits.Perm (referencesOf g rules root followed) := by
  simpa using w.perm

/-- A walk that is over has followed the reached nodes. -/
theorem mem_iff_of_nil (w : Walk g rules root fuel [] visits followed) (id : NodeId) :
    id ∈ followed ↔ Reaches g rules root id := by
  have hmem (m : NodeId) : m ∈ followed ↔ m ∈ referencesOf g rules root followed :=
    (w.mem_iff m).trans w.perm_of_nil.mem_iff
  refine ⟨fun h => w.reaches id (by simpa using (w.mem_iff id).1 h), fun h => ?_⟩
  induction h with
  | root h => exact (hmem _).2 (List.mem_append_left _ h)
  | field _ h ih => exact (hmem _).2 (List.mem_append_right _ (List.mem_flatMap.2 ⟨_, ih, h⟩))

/-- Followed nodes have no more references to a node than all the reached ones. -/
theorem count_referencesOf_le (w : Walk g rules root fuel stack visits followed)
    {ids : List NodeId} (hmem : ∀ m, m ∈ ids ↔ Reaches g rules root m) (id : NodeId) :
    (referencesOf g rules root followed).count id ≤ (referencesOf g rules root ids).count id := by
  have hsub : followed ⊆ ids := fun m hm =>
    (hmem m).2 (w.reaches m (List.mem_append_left _ ((w.mem_iff m).1 hm)))
  obtain ⟨l, hperm, hsl⟩ := List.subperm_of_subset w.nodup hsub
  rw [referencesOf, referencesOf, List.count_append, List.count_append, List.count_flatMap,
    List.count_flatMap, ← (hperm.map _).sum_eq]
  exact Nat.add_le_add_left ((hsl.map _).sum_le_sum fun _ _ => Nat.zero_le _) _

/-- A followed node that is met once more is reached more than once. -/
theorem reachedTwice_of_mem (w : Walk g rules root fuel (.node id :: stack) visits followed)
    (hid : id ∈ followed) {ids : List NodeId} (hnd : ids.Nodup)
    (hmem : ∀ m, m ∈ ids ↔ Reaches g rules root m) : ReachedTwice g rules root id := by
  refine (reachedTwice_iff hnd hmem id).2 (lt_of_lt_of_le ?_ (w.count_referencesOf_le hmem id))
  have hvisited : 0 < visits.count id := List.count_pos_iff.2 ((w.mem_iff id).1 hid)
  rw [← w.perm.count_eq, List.count_append, List.flatMap_cons, Value.references_node,
    List.count_append, List.count_singleton_self]
  omega

end Walk

/-! ### Counting visits -/

/-- A value that is no node is replaced by its parts. -/
theorem visitLoop_pass {v : Value} (hv : ∀ id, v ≠ .node id) (fuel : Nat) (stack : List Value)
    (visits : List NodeId) : visitLoop g rules (fuel + 1) (v :: stack) visits
      = visitLoop g rules fuel ((parts v).reverse ++ stack) visits := by
  cases v with
  | node id => exact absurd rfl (hv id)
  | _ => rfl

/-- The loop that counts visits is a walk to its end. -/
theorem walk_visitLoop (hg : g.IsProper) {fuel : Nat} {stack : List Value}
    {visits vs followed : List NodeId} (w : Walk g rules root fuel stack visits followed)
    (h : visitLoop g rules fuel stack visits = .ok vs) :
    ∃ fuel' followed', Walk g rules root fuel' [] vs followed' := by
  induction fuel generalizing stack visits followed with
  | zero =>
    obtain rfl := w.stack_eq_nil
    rw [visitLoop] at h
    exact ⟨0, followed, Except.ok.inj h ▸ w⟩
  | succ fuel ih =>
    cases stack with
    | nil =>
      rw [visitLoop] at h
      exact ⟨fuel + 1, followed, Except.ok.inj h ▸ w⟩
    | cons v rest =>
      by_cases hv : ∀ id, v ≠ .node id
      · rw [visitLoop_pass hv] at h
        exact ih (w.pass hv ((List.reverse_perm _).append_right _)) h
      · push Not at hv
        obtain ⟨id, rfl⟩ := hv
        rw [visitLoop] at h
        split at h
        · next hid => exact ih (w.again ((w.mem_iff id).2 (List.contains_iff_mem.1 hid))) h
        · next hid =>
          cases hn : rules.fieldsFor (g.node id).schema with
          | error e => rw [selected, hn] at h; exact absurd h (by simp [Except.map])
          | ok names =>
            rw [selected, hn] at h
            refine ih (w.follow hg ?_ hn ((List.reverse_perm _).append_right _)) h
            exact fun hmem => hid (List.contains_iff_mem.2 ((w.mem_iff id).1 hmem))

theorem exists_reached_of_visits (hg : g.IsProper) {vs : List NodeId}
    (h : visits g rules root = .ok vs) :
    ∃ ids : List NodeId, ids.Nodup ∧ (∀ m, m ∈ ids ↔ Reaches g rules root m) ∧
      vs.Perm (referencesOf g rules root ids) := by
  obtain ⟨fuel, ids, w⟩ := walk_visitLoop hg (.start g rules root) h
  exact ⟨ids, w.nodup, w.mem_iff_of_nil, w.perm_of_nil⟩

theorem isShared_iff (hg : g.IsProper) {vs : List NodeId} (h : visits g rules root = .ok vs)
    (id : NodeId) : isShared vs id = true ↔ ReachedTwice g rules root id := by
  obtain ⟨ids, hnd, hmem, hperm⟩ := exists_reached_of_visits hg h
  rw [reachedTwice_iff hnd hmem, isShared, decide_eq_true_iff, hperm.count_eq]

end Encoding

namespace Graph

open Encoding

variable {g : Graph} {rules : Rules} {root : Value}

/-- When the visits can be counted, they say which nodes are shared. -/
theorem encode_of_visits {vs : List NodeId} (h : visits g rules root = .ok vs) :
    g.encode rules root = (Emission.run g rules (isShared vs) (steps g root) (.start root)).map
      fun e => Draft.read e.cells := by
  rw [encode, h]

/-- A document is read off the cells that a run leaves. -/
theorem exists_run_of_encode {j : Json} (h : g.encode rules root = .ok j) :
    ∃ vs e, visits g rules root = .ok vs ∧
      Emission.run g rules (isShared vs) (steps g root) (.start root) = .ok e ∧
      Draft.read e.cells = j := by
  rw [encode] at h
  split at h
  · exact absurd h (by simp)
  · next vs hvisits =>
    obtain ⟨e, hrun, hread⟩ := exists_of_map_eq_ok h
    exact ⟨vs, e, hvisits, hrun, hread⟩

end Graph

end DeclGraph
