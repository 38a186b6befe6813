import Mathlib

/-!
# Lists with every item once

`List.eraseDups` keeps the first of equal items.  What it gives has no item twice
(`nodup_eraseDups`), and an item at the end of a list stays exactly if it is new
(`eraseDups_concat`).  Choosing items and keeping each of them once go in either order
(`filter_eraseDups`).  What is not kept are the items that come again (`repeats`), so the two make
up the list (`length_repeats_add_length_eraseDups`).
-/

namespace DeclGraph

variable {α : Type} [DecidableEq α]

theorem nodup_eraseDups (l : List α) : l.eraseDups.Nodup := by
  generalize hn : l.length = n
  induction n using Nat.strong_induction_on generalizing l with
  | _ n ih =>
    cases l with
    | nil => exact List.nodup_nil
    | cons a rest =>
      have hlt : (rest.filter fun b => !b == a).length < n := by
        have := List.length_filter_le (fun b => !b == a) rest
        rw [List.length_cons] at hn
        omega
      rw [List.eraseDups_cons, List.nodup_cons, List.mem_eraseDups, List.mem_filter]
      exact ⟨by simp, ih _ hlt _ rfl⟩

/-- An item behind others is kept exactly if it is not among them. -/
theorem eraseDups_concat (l : List α) (a : α) :
    (l ++ [a]).eraseDups = if a ∈ l then l.eraseDups else l.eraseDups ++ [a] := by
  rw [List.eraseDups_append]
  split_ifs with h
  · simp [List.removeAll, h]
  · simp [List.removeAll, h, List.eraseDups_cons]

/-- The chosen items of those that are kept are what is kept of the chosen items. -/
theorem filter_eraseDups (p : α → Bool) (l : List α) :
    l.eraseDups.filter p = (l.filter p).eraseDups := by
  induction l using List.reverseRecOn with
  | nil => rfl
  | append_singleton l a ih =>
    rw [eraseDups_concat, List.filter_append]
    by_cases hp : p a = true
    · rw [List.filter_cons_of_pos hp, List.filter_nil, eraseDups_concat]
      by_cases ha : a ∈ l
      · rw [if_pos ha, if_pos (List.mem_filter.2 ⟨ha, hp⟩), ih]
      · have hnew : a ∉ l.filter p := fun h => ha (List.mem_filter.1 h).1
        rw [if_neg ha, if_neg hnew, List.filter_append, ih, List.filter_cons_of_pos hp,
          List.filter_nil]
    · rw [List.filter_cons_of_neg hp, List.filter_nil, List.append_nil, ← ih]
      split_ifs
      · rfl
      · rw [List.filter_append, List.filter_cons_of_neg hp, List.filter_nil, List.append_nil]

/-- The items that come again: those that stand further in front as well, in order. -/
def repeats (l : List α) : List α := (l.zipIdx.filter fun (a, i) => a ∈ l.take i).map Prod.fst

/-- An item behind others comes again exactly if it is among them. -/
theorem repeats_concat (l : List α) (a : α) :
    repeats (l ++ [a]) = if a ∈ l then repeats l ++ [a] else repeats l := by
  have hfront : l.zipIdx.filter (fun (b, i) => b ∈ (l ++ [a]).take i)
      = l.zipIdx.filter fun (b, i) => b ∈ l.take i := by
    refine List.filter_congr fun (b, i) hmem => ?_
    have hi : i < l.length := by simpa using (List.mem_zipIdx hmem).2.1
    dsimp only
    rw [List.take_append_of_le_length hi.le]
  have hlast : (l ++ [a]).take l.length = l := List.take_left
  rw [repeats, List.zipIdx_append, List.filter_append, List.map_append, hfront, Nat.zero_add,
    List.zipIdx_singleton, List.filter_singleton]
  simp only [hlast]
  split_ifs with ha <;> simp [repeats, ha]

/-- Every item is kept or comes again. -/
theorem length_repeats_add_length_eraseDups (l : List α) :
    (repeats l).length + l.eraseDups.length = l.length := by
  induction l using List.reverseRecOn with
  | nil => rfl
  | append_singleton l a ih =>
    rw [repeats_concat, eraseDups_concat, List.length_append, List.length_singleton]
    split_ifs
    · rw [List.length_append, List.length_singleton]
      omega
    · rw [List.length_append, List.length_singleton]
      omega

end DeclGraph
