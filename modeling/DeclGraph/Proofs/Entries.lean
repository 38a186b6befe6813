import DeclGraph.Entries
import Mathlib

/-!
# Looking up entries

`get?` finds an entry exactly where the key occurs (`get?_eq_none_iff`, `mem_of_get?`), and where
the keys are told apart it finds every entry (`get?_of_mem`).  In a plain list whatever stands at a
place is another entry or the one that was set there (`getElem?_set_eq_some_iff`).
-/

namespace DeclGraph

/-- What stands in a list after one of its entries has been set. -/
theorem getElem?_set_eq_some_iff {α : Type} {l : List α} {i j : Nat} {a b x : α}
    (hi : l[i]? = some a) :
    (l.set i b)[j]? = some x ↔ (j = i ∧ x = b) ∨ (j ≠ i ∧ l[j]? = some x) := by
  have hlt : i < l.length := (List.getElem?_eq_some_iff.1 hi).1
  rw [List.getElem?_set]
  by_cases hji : j = i
  · subst hji
    simp [hlt, eq_comm]
  · simp [hji, Ne.symm hji]

namespace Entries

variable {κ α : Type} [DecidableEq κ]

/-- What is found stands among the entries. -/
theorem mem_of_get? {k : κ} {v : α} {m : Entries κ α} (h : get? k m = some v) : (k, v) ∈ m := by
  induction m with
  | nil => simp [get?] at h
  | cons e rest ih =>
    obtain ⟨k', v'⟩ := e
    rw [get?] at h
    split_ifs at h with hk
    · rw [hk, Option.some.inj h]; exact List.mem_cons_self
    · exact List.mem_cons_of_mem _ (ih h)

/-- Nothing is found exactly when the key does not occur. -/
theorem get?_eq_none_iff {k : κ} {m : Entries κ α} : get? k m = none ↔ k ∉ keys m := by
  induction m with
  | nil => simp [get?, keys]
  | cons e rest ih =>
    obtain ⟨k', v'⟩ := e
    by_cases hk : k' = k
    · simp [get?, keys, hk]
    · have hk' : k ≠ k' := Ne.symm hk
      simpa [get?, keys, hk, hk'] using ih

theorem exists_of_mem_keys {k : κ} {m : Entries κ α} (h : k ∈ keys m) : ∃ v, get? k m = some v :=
  Option.ne_none_iff_exists'.1 fun hnone => get?_eq_none_iff.1 hnone h

/-- Where the keys are told apart every entry is found. -/
theorem get?_of_mem {k : κ} {v : α} {m : Entries κ α} (hnd : (keys m).Nodup) (h : (k, v) ∈ m) :
    get? k m = some v := by
  induction m with
  | nil => simp at h
  | cons e rest ih =>
    obtain ⟨k', v'⟩ := e
    rw [keys, List.map_cons, List.nodup_cons] at hnd
    rcases List.mem_cons.1 h with heq | hrest
    · obtain ⟨rfl, rfl⟩ := Prod.mk.inj heq
      rw [get?, if_pos rfl]
    · have hk : k' ≠ k := by
        rintro rfl
        exact hnd.1 (List.mem_map.2 ⟨(k', v), hrest, rfl⟩)
      rw [get?, if_neg hk, ih hnd.2 hrest]

/-- Looking up a key among changed values is looking it up and changing its value. -/
theorem get?_map {β : Type} (f : α → β) (k : κ) (m : Entries κ α) :
    get? k (m.map fun e => (e.1, f e.2)) = (get? k m).map f := by
  induction m with
  | nil => rfl
  | cons e rest ih =>
    obtain ⟨k', v⟩ := e
    rw [List.map_cons, get?, get?, ih]
    split <;> rfl

/-- A new key is put behind the others. -/
theorem put_of_notMem {k : κ} {m : Entries κ α} (h : k ∉ keys m) (v : α) :
    put k v m = m ++ [(k, v)] := by
  induction m with
  | nil => rfl
  | cons e rest ih =>
    obtain ⟨k', v'⟩ := e
    rw [keys, List.map_cons, List.mem_cons, not_or] at h
    rw [put, if_neg (Ne.symm h.1), ih h.2, List.cons_append]

end Entries

end DeclGraph
