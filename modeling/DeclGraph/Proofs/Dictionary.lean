import DeclGraph.Proofs.Json.Proper
import DeclGraph.Proofs.Once

/-!
# Maps built from entries

`Entries.ofList` builds a map from entries of which some may have one key.  Each key then stands at
the place of its first entry (`keys_ofList`) with the value of its last one (`get?_ofList_cons`,
`mem_ofList_iff`), and entries whose keys are told apart are the map already (`ofList_of_nodup`).
-/

namespace DeclGraph

namespace Entries

variable {κ α β : Type} [DecidableEq κ]

theorem ofList_concat (es : List (κ × α)) (k : κ) (v : α) :
    ofList (es ++ [(k, v)]) = put k v (ofList es) := by
  simp [ofList, List.foldl_append]

/-- Each key is there once, in the order in which the keys come in. -/
theorem keys_ofList (es : List (κ × α)) : keys (ofList es) = (es.map Prod.fst).eraseDups := by
  induction es using List.reverseRecOn with
  | nil => rfl
  | append_singleton es e ih =>
    obtain ⟨k, v⟩ := e
    rw [ofList_concat, keys_put, ih, List.map_append, List.map_singleton, eraseDups_concat]
    simp only [List.mem_eraseDups]

theorem nodup_keys_ofList (es : List (κ × α)) : (keys (ofList es)).Nodup := by
  rw [keys_ofList]
  exact nodup_eraseDups _

/-- The map has no entries but those it is built from. -/
theorem mem_of_mem_ofList {es : List (κ × α)} {e : κ × α} (h : e ∈ ofList es) : e ∈ es := by
  induction es using List.reverseRecOn with
  | nil => exact absurd h List.not_mem_nil
  | append_singleton es last ih =>
    rw [ofList_concat] at h
    rcases mem_put h with rfl | h
    · exact List.mem_append_right _ List.mem_cons_self
    · exact List.mem_append_left _ (ih h)

/-- Entries whose keys are told apart are the map. -/
theorem ofList_of_nodup {es : List (κ × α)} (h : (keys es).Nodup) : ofList es = es := by
  induction es using List.reverseRecOn with
  | nil => rfl
  | append_singleton es e ih =>
    obtain ⟨k, v⟩ := e
    rw [keys, List.map_append] at h
    obtain ⟨hes, -, hdisjoint⟩ := List.nodup_append.1 h
    have hk : k ∉ keys es := fun hmem => hdisjoint k hmem k (by simp) rfl
    rw [ofList_concat, ih hes, put_of_notMem hk]

/-- In a map that goes on from another one, a key has the value that the new entries give it, or
its old value. -/
theorem get?_foldl_put (es : List (κ × α)) (m : Entries κ α) (k : κ) :
    get? k (es.foldl (fun m (k, v) => put k v m) m) = (get? k (ofList es)).or (get? k m) := by
  induction es using List.reverseRecOn with
  | nil => rfl
  | append_singleton es e ih =>
    obtain ⟨k', v⟩ := e
    rw [List.foldl_append, ofList_concat]
    show get? k (put k' v _) = _
    by_cases hk : k = k'
    · rw [hk, get?_put_self, get?_put_self]; rfl
    · rw [get?_put_of_ne hk, get?_put_of_ne hk, ih]

/-- A key has the value of its last entry. -/
theorem get?_ofList_cons (k' : κ) (v : α) (es : List (κ × α)) (k : κ) :
    get? k (ofList ((k', v) :: es)) = (get? k (ofList es)).or (if k' = k then some v else none) :=
  get?_foldl_put es [(k', v)] k

/-- What stands in the map are the last entries for their keys. -/
theorem mem_ofList_iff {es : List (κ × α)} {k : κ} {v : α} :
    (k, v) ∈ ofList es ↔ ∃ before after, es = before ++ (k, v) :: after ∧ k ∉ keys after := by
  constructor
  · intro h
    induction es using List.reverseRecOn with
    | nil => exact absurd h List.not_mem_nil
    | append_singleton es e ih =>
      obtain ⟨k', v'⟩ := e
      have hget := get?_of_mem (nodup_keys_ofList _) h
      rw [ofList_concat] at hget
      by_cases hk : k = k'
      · -- the last entry of all is for the key
        rw [hk, get?_put_self] at hget
        exact ⟨es, [], by rw [hk, Option.some.inj hget], List.not_mem_nil⟩
      · rw [get?_put_of_ne hk] at hget
        obtain ⟨before, after, rfl, hafter⟩ := ih (mem_of_get? hget)
        refine ⟨before, after ++ [(k', v')], by simp, ?_⟩
        rw [keys, List.map_append, List.mem_append]
        exact not_or.2 ⟨hafter, by simpa using hk⟩
  · rintro ⟨before, after, rfl, hafter⟩
    have hnone : get? k (ofList after) = none := by
      rw [get?_eq_none_iff, keys_ofList, List.mem_eraseDups]
      exact hafter
    apply mem_of_get?
    rw [ofList, List.foldl_append, get?_foldl_put, get?_ofList_cons, hnone, if_pos rfl]
    rfl

/-- Changing the values commutes with building the map. -/
theorem ofList_map (f : α → β) (es : List (κ × α)) :
    ofList (es.map fun e => (e.1, f e.2)) = (ofList es).map fun e => (e.1, f e.2) := by
  have hput (k : κ) (v : α) (m : Entries κ α) :
      put k (f v) (m.map fun e => (e.1, f e.2)) = (put k v m).map fun e => (e.1, f e.2) := by
    induction m with
    | nil => rfl
    | cons e rest ih =>
      obtain ⟨k', v'⟩ := e
      rw [List.map_cons, put, put, ih]
      split <;> rfl
  induction es using List.reverseRecOn with
  | nil => rfl
  | append_singleton es e ih =>
    rw [List.map_append, List.map_singleton, ofList_concat, ih, hput, ofList_concat]

end Entries

end DeclGraph
