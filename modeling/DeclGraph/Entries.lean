/-!
# Entries in insertion order

A map whose order can be seen is a list of entries.  `Entries.put` overwrites the value of a key
that is there and keeps its place, and adds a new key at the end; `Entries.get?` looks a key up.
The laws say what a look-up answers after `put` (`get?_put_self`, `get?_put_of_ne`) and which keys
there are (`keys_put`).
-/

namespace DeclGraph

/-- A map as the list of its entries, in the order in which the keys came in. -/
abbrev Entries (κ : Type) (α : Type) := List (κ × α)

namespace Entries

variable {κ α : Type} [DecidableEq κ]

/-- The keys in order. -/
def keys (m : Entries κ α) : List κ := m.map Prod.fst

/-- The value of a key. -/
def get? (k : κ) : Entries κ α → Option α
  | [] => none
  | (k', v) :: rest => if k' = k then some v else get? k rest

/-- Gives a key a value: in place if it is there, at the end otherwise. -/
def put (k : κ) (v : α) : Entries κ α → Entries κ α
  | [] => [(k, v)]
  | (k', v') :: rest => if k' = k then (k', v) :: rest else (k', v') :: put k v rest

/-- The map that entries build one after another; of a repeated key the last value stays, at the
place of the first. -/
def ofList (es : List (κ × α)) : Entries κ α := es.foldl (fun m (k, v) => put k v m) []

@[simp] theorem get?_put_self (k : κ) (v : α) (m : Entries κ α) :
    get? k (put k v m) = some v := by
  induction m with
  | nil => simp [put, get?]
  | cons e rest ih =>
    obtain ⟨k', v'⟩ := e
    by_cases h : k' = k <;> simp [put, get?, h, ih]

theorem get?_put_of_ne {k k' : κ} (h : k' ≠ k) (v : α) (m : Entries κ α) :
    get? k' (put k v m) = get? k' m := by
  induction m with
  | nil => simp [put, get?, Ne.symm h]
  | cons e rest ih =>
    obtain ⟨k₁, v₁⟩ := e
    by_cases h₁ : k₁ = k
    · subst h₁; simp [put, get?, Ne.symm h]
    · simp only [put, if_neg h₁, get?, ih]

/-- A key that is there keeps the keys as they are; a new one goes to the end. -/
theorem keys_put (k : κ) (v : α) (m : Entries κ α) :
    keys (put k v m) = if k ∈ keys m then keys m else keys m ++ [k] := by
  induction m with
  | nil => simp [put, keys]
  | cons e rest ih =>
    obtain ⟨k', v'⟩ := e
    by_cases h : k' = k
    · subst h; simp [put, keys]
    · have hk : k ≠ k' := Ne.symm h
      simp only [keys] at ih
      simp only [put, if_neg h, keys, List.map_cons, List.mem_cons, hk, false_or, ih]
      split <;> simp_all

end Entries

end DeclGraph
