import DeclGraph.Graph.Text
import DeclGraph.Proofs.Except
import DeclGraph.Proofs.TranslationUnit.Nodes

/-!
# Spellings at any depth

`Graph.spellWithin` spells types to some depth, and `Graph.spell` to a depth that depends on the
number of nodes.  More depth changes no spelling (`spellWithin_mono`), and a type that has a
spelling at any depth has it at that one (`spell_eq_ok_iff`): the nodes that are spelled
(`Graph.spelled`) grow in number with the depth until one more level adds none, from then on no
level does, and there are no more of them than nodes.  So an array is spelled as its element is,
with brackets behind (`spell_array`).
-/

namespace DeclGraph

namespace Graph

variable {g : Graph} {m n : Nat} {v : Value} {id : NodeId} {t t' : String}

/-! ### More depth -/

/-- Where parts keep their spellings, so does what is made of them. -/
theorem spellWithin_succ_of (h : ∀ v t, g.spellWithin n v = .ok t → g.spellWithin m v = .ok t)
    (hv : g.spellWithin (n + 1) v = .ok t) : g.spellWithin (m + 1) v = .ok t := by
  cases v with
  | node id =>
    rw [spellWithin] at hv ⊢
    split at hv
    case h_6 | h_7 => exact bind_eq_ok_of_imp (h _) (fun _ h => h) hv
    case h_8 =>
      refine bind_eq_ok_of_imp (fun _ h => h) (fun parameters => ?_) hv
      refine bind_eq_ok_of_imp (fun _ => mapM_eq_ok_of_imp fun p t => ?_) fun _ => ?_
      · exact bind_eq_ok_of_imp (fun _ h => h) fun w => h w t
      · exact bind_eq_ok_of_imp (h _) fun _ h => h
    all_goals exact hv
  | scalar x =>
    cases x with
    | null => exact hv
    | _ => exact hv
  | _ => exact hv

/-- More depth changes no spelling. -/
theorem spellWithin_mono (hnm : n ≤ m) (hv : g.spellWithin n v = .ok t) :
    g.spellWithin m v = .ok t := by
  induction n generalizing m v t with
  | zero => exact absurd hv (by simp [spellWithin])
  | succ n ih =>
    obtain ⟨m, rfl⟩ := Nat.exists_eq_add_of_lt hnm
    exact spellWithin_succ_of (fun _ _ => ih (Nat.le_add_right n m)) hv

/-- At any depth a value has one spelling. -/
theorem eq_of_spellWithin (hn : g.spellWithin n v = .ok t) (hm : g.spellWithin m v = .ok t') :
    t = t' := by
  have hn' := spellWithin_mono (Nat.le_max_left n m) hn
  have hm' := spellWithin_mono (Nat.le_max_right n m) hm
  exact Except.ok.inj (hn'.symm.trans hm')

/-- Only nodes of the graph have spellings. -/
theorem lt_size_of_spellWithin (h : g.spellWithin n (.node id) = .ok t) : id < g.size := by
  refine lt_size_of_node_ne fun habsent => ?_
  cases n with
  | zero => exact absurd h (by simp [spellWithin])
  | succ n =>
    rw [spellWithin, habsent] at h
    exact absurd h (by simp [Node.absent, Node.kind?])

/-- What is no node is spelled right away, if at all. -/
theorem spellWithin_of_ne_node (hv : ∀ id, v ≠ .node id) (h : g.spellWithin n v = .ok t) :
    g.spellWithin (m + 1) v = .ok t := by
  cases n with
  | zero => exact absurd h (by simp [spellWithin])
  | succ n =>
    cases v with
    | node id => exact absurd rfl (hv id)
    | scalar x =>
      cases x with
      | null => exact h
      | _ => exact absurd h (by simp [spellWithin])
    | _ => exact absurd h (by simp [spellWithin])

/-! ### Depth enough -/

/-- The nodes that have a spelling at a depth. -/
def spelled (g : Graph) (n : Nat) : Finset NodeId :=
  (Finset.range g.size).filter fun id => (g.spellWithin (n + 1) (.node id)).isOk

theorem mem_spelled : id ∈ g.spelled n ↔ ∃ t, g.spellWithin (n + 1) (.node id) = .ok t := by
  rw [spelled, Finset.mem_filter, Finset.mem_range]
  constructor
  · exact fun h => exists_eq_ok_of_isOk h.2
  · rintro ⟨t, ht⟩
    exact ⟨lt_size_of_spellWithin ht, by rw [ht]; rfl⟩

theorem spelled_mono : Monotone g.spelled := by
  intro n m hnm id hid
  obtain ⟨t, ht⟩ := mem_spelled.1 hid
  exact mem_spelled.2 ⟨t, spellWithin_mono (by omega) ht⟩

theorem card_spelled_le (n : Nat) : (g.spelled n).card ≤ g.size := by
  have hle := Finset.card_filter_le (Finset.range g.size) fun id =>
    (g.spellWithin (n + 1) (.node id)).isOk
  rwa [Finset.card_range] at hle

/-- What one more level spells is spelled already if the level adds no nodes. -/
theorem spellWithin_of_stable (h : g.spelled n = g.spelled (n + 1))
    (hv : g.spellWithin (n + 2) v = .ok t) : g.spellWithin (n + 1) v = .ok t := by
  by_cases hnode : ∃ id, v = .node id
  · obtain ⟨id, rfl⟩ := hnode
    obtain ⟨t', ht'⟩ := mem_spelled.1 (h ▸ mem_spelled.2 ⟨t, hv⟩ : id ∈ g.spelled n)
    rw [eq_of_spellWithin hv ht', ht']
  · exact spellWithin_of_ne_node (fun id heq => hnode ⟨id, heq⟩) hv

/-- If a level adds no nodes, no level above it does. -/
theorem spelled_stable (h : g.spelled n = g.spelled (n + 1)) :
    g.spelled (n + 1) = g.spelled (n + 2) := by
  refine Finset.Subset.antisymm (spelled_mono (Nat.le_succ _)) fun id hid => ?_
  obtain ⟨t, ht⟩ := mem_spelled.1 hid
  exact mem_spelled.2 ⟨t, spellWithin_succ_of (fun _ _ => spellWithin_of_stable h) ht⟩

/-- Levels beyond the number of nodes add none. -/
theorem spelled_subset (n : Nat) : g.spelled n ⊆ g.spelled g.size := by
  rcases Nat.le_total n g.size with hle | hge
  · exact spelled_mono hle
  · have hcard : Monotone fun n => (g.spelled n).card := fun _ _ h =>
      Finset.card_le_card (spelled_mono h)
    have heq := Nat.stabilises_of_monotone hcard card_spelled_le (fun m hm => ?_) hge
    · exact (Finset.eq_of_subset_of_card_le (spelled_mono hge) heq.le).ge
    · have hstable := Finset.eq_of_subset_of_card_le (spelled_mono (Nat.le_succ m)) hm.ge
      exact congrArg Finset.card (spelled_stable hstable)

/-- The spelling of a type is what it is spelled at any depth. -/
theorem spell_eq_ok_iff : g.spell v = .ok t ↔ ∃ n, g.spellWithin n v = .ok t := by
  constructor
  · exact fun h => ⟨_, h⟩
  · rintro ⟨n, hn⟩
    by_cases hnode : ∃ id, v = .node id
    · obtain ⟨id, rfl⟩ := hnode
      have hmem : id ∈ g.spelled n := mem_spelled.2 ⟨t, spellWithin_mono (Nat.le_succ n) hn⟩
      obtain ⟨t', ht'⟩ := mem_spelled.1 (spelled_subset n hmem)
      rw [eq_of_spellWithin hn ht']
      exact spellWithin_mono (Nat.le_succ _) ht'
    · exact spellWithin_of_ne_node (fun id heq => hnode ⟨id, heq⟩) hn

/-! ### Arrays -/

/-- The spelling of an array. -/
theorem spell_array (hkind : (g.node id).kind? = some .arrayType)
    (h : g.spell ((g.node id).get "element_type") = .ok t) :
    g.spell (.node id) = .ok (t ++ g.arrayBrackets ((g.node id).get "size")) := by
  obtain ⟨n, hn⟩ := spell_eq_ok_iff.1 h
  refine spell_eq_ok_iff.2 ⟨n + 1, ?_⟩
  rw [spellWithin, hkind]
  dsimp only
  rw [hn]
  rfl

end Graph

end DeclGraph
