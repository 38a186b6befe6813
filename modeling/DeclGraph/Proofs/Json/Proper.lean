import DeclGraph.Json.Reader
import DeclGraph.Proofs.Entries

/-!
# Parsed values name nothing twice

An entry of an object that is read takes the place of an entry with its name, so no object that has
been parsed has two entries of one name, at no level (`Json.IsProper`, `Json.isProper_of_parse`).
-/

namespace DeclGraph

namespace Entries

variable {κ α : Type} [DecidableEq κ]

/-- Giving a key a value names nothing twice. -/
theorem nodup_keys_put {m : Entries κ α} (h : (keys m).Nodup) (k : κ) (v : α) :
    (keys (put k v m)).Nodup := by
  rw [keys_put]
  split_ifs with hk
  · exact h
  · rw [← List.concat_eq_append]
    exact h.concat hk

theorem mem_put {k : κ} {v : α} {e : κ × α} {m : Entries κ α} (h : e ∈ put k v m) :
    e = (k, v) ∨ e ∈ m := by
  induction m with
  | nil => exact .inl (List.mem_singleton.1 h)
  | cons first rest ih =>
    obtain ⟨k', v'⟩ := first
    rw [put] at h
    split_ifs at h with hk
    · rcases List.mem_cons.1 h with rfl | h
      · exact .inl (by rw [hk])
      · exact .inr (List.mem_cons_of_mem _ h)
    · rcases List.mem_cons.1 h with rfl | h
      · exact .inr List.mem_cons_self
      · exact (ih h).imp_right (List.mem_cons_of_mem _)

end Entries

namespace Json

/-- No object in a value names anything twice. -/
inductive IsProper : Json → Prop
  | null : IsProper .null
  | bool (b : Bool) : IsProper (.bool b)
  | int (n : Int) : IsProper (.int n)
  | float (x : Binary64) : IsProper (.float x)
  | string (s : String) : IsProper (.string s)
  | array {items : List Json} (h : ∀ v ∈ items, IsProper v) : IsProper (.array items)
  | object {entries : List (String × Json)} (hnames : (Entries.keys entries).Nodup)
      (h : ∀ e ∈ entries, IsProper e.2) : IsProper (.object entries)

namespace Reader

theorem isProper_of_numberTail {start s rest : List Char} {negative : Bool} {whole : List Nat}
    {v : Json} (h : numberTail start negative whole s = .ok (v, rest)) : v.IsProper := by
  unfold numberTail at h
  dsimp only at h
  split at h
  · split at h
    · exact absurd h (by simp)
    · rw [← (Prod.mk.inj (Except.ok.inj h)).1]
      exact .int _
  · rw [← (Prod.mk.inj (Except.ok.inj h)).1]
    exact .float _

/-- Words and numbers are no objects. -/
theorem isProper_of_atom {s rest : List Char} {v : Json} (h : atom s = .ok (v, rest)) :
    v.IsProper := by
  unfold atom at h
  split at h
  · next found hfound =>
    obtain rfl := Except.ok.inj h
    obtain ⟨⟨word, v'⟩, hmem, hbehind⟩ := List.exists_of_findSome?_eq_some hfound
    obtain ⟨rest', -, heq⟩ := Option.map_eq_some_iff.1 hbehind
    obtain ⟨rfl, -⟩ := Prod.mk.inj heq
    -- the words are few
    simp only [words, List.mem_cons, Prod.mk.injEq, List.not_mem_nil, or_false] at hmem
    rcases hmem with ⟨-, rfl⟩ | ⟨-, rfl⟩ | ⟨-, rfl⟩ | ⟨-, rfl⟩ | ⟨-, rfl⟩ | ⟨-, rfl⟩
    · exact .null
    · exact .bool true
    · exact .bool false
    · exact .float _
    · exact .float _
    · exact .float _
  · unfold number at h
    dsimp only at h
    split at h
    · exact isProper_of_numberTail h
    · split at h
      · exact isProper_of_numberTail h
      · exact absurd h (by simp)
    · exact absurd h (by simp)

/-- What is read with some fuel: values, items behind proper ones, and members behind proper ones
with different names. -/
structure IsSound (fuel : Nat) : Prop where
  /-- A value is proper. -/
  value : ∀ {s rest : List Char} {v : Json}, value fuel s = .ok (v, rest) → v.IsProper
  /-- An array is proper. -/
  items : ∀ {s rest : List Char} {done : List Json} {v : Json}, (∀ v ∈ done, v.IsProper) →
    items fuel s done = .ok (v, rest) → v.IsProper
  /-- An object is proper. -/
  members : ∀ {s rest : List Char} {done : Entries String Json} {v : Json},
    (Entries.keys done).Nodup → (∀ e ∈ done, e.2.IsProper) →
    members fuel s done = .ok (v, rest) → v.IsProper

section Steps

variable {fuel : Nat} {s rest : List Char} {v : Json}

/-- With one more step of fuel a value is read as one of its forms. -/
theorem IsSound.value_succ (ih : IsSound fuel) (h : Reader.value (fuel + 1) s = .ok (v, rest)) :
    v.IsProper := by
  unfold Reader.value at h
  split at h
  · split at h
    · rw [← (Prod.mk.inj (Except.ok.inj h)).1]
      exact .string _
    · exact absurd h (by simp)
  · split at h
    · rw [← (Prod.mk.inj (Except.ok.inj h)).1]
      exact .array (List.forall_mem_nil _)
    · exact ih.items (List.forall_mem_nil _) h
  · split at h
    · rw [← (Prod.mk.inj (Except.ok.inj h)).1]
      exact .object List.nodup_nil (List.forall_mem_nil _)
    · have hnames : (Entries.keys ([] : Entries String Json)).Nodup := List.nodup_nil
      exact ih.members hnames (List.forall_mem_nil _) h
  · exact isProper_of_atom h

/-- With one more step of fuel one item is read, and then the array ends or goes on. -/
theorem IsSound.items_succ (ih : IsSound fuel) {done : List Json} (hdone : ∀ v ∈ done, v.IsProper)
    (h : Reader.items (fuel + 1) s done = .ok (v, rest)) : v.IsProper := by
  unfold Reader.items at h
  split at h
  · exact absurd h (by simp)
  · next v rest hvalue =>
    have hv : v.IsProper := ih.value hvalue
    have hall : ∀ u ∈ v :: _, u.IsProper := List.forall_mem_cons.2 ⟨hv, hdone⟩
    split at h
    · rw [← (Prod.mk.inj (Except.ok.inj h)).1]
      exact .array fun u hu => hall u (List.mem_reverse.1 hu)
    · exact ih.items hall h
    · exact absurd h (by simp)

/-- With one more step of fuel one member is read, and then the object ends or goes on. -/
theorem IsSound.members_succ (ih : IsSound fuel) {done : Entries String Json}
    (hnames : (Entries.keys done).Nodup) (hdone : ∀ e ∈ done, e.2.IsProper)
    (h : Reader.members (fuel + 1) s done = .ok (v, rest)) : v.IsProper := by
  unfold Reader.members at h
  split at h
  · split at h
    · exact absurd h (by simp)
    · next name _ _ =>
      split at h
      · split at h
        · exact absurd h (by simp)
        · next v rest hvalue =>
          -- a name that comes again replaces its value, so names stay different
          have hv : v.IsProper := ih.value hvalue
          have hnames' := Entries.nodup_keys_put hnames name v
          have hall : ∀ e ∈ Entries.put name v done, e.2.IsProper := by
            intro e he
            rcases Entries.mem_put he with rfl | he
            · exact hv
            · exact hdone e he
          split at h
          · rw [← (Prod.mk.inj (Except.ok.inj h)).1]
            exact .object hnames' hall
          · exact ih.members hnames' hall h
          · exact absurd h (by simp)
      · exact absurd h (by simp)
  · exact absurd h (by simp)

end Steps

theorem isSound (fuel : Nat) : IsSound fuel := by
  induction fuel with
  | zero =>
    refine ⟨fun h => ?_, fun _ h => ?_, fun _ _ h => ?_⟩
    · exact absurd h (by simp [value])
    · exact absurd h (by simp [items])
    · exact absurd h (by simp [members])
  | succ fuel ih => exact ⟨ih.value_succ, ih.items_succ, ih.members_succ⟩

end Reader

/-- No object that has been parsed names anything twice. -/
theorem isProper_of_parse {text : String} {v : Json} (h : parse text = .ok v) : v.IsProper := by
  unfold parse at h
  cases hdocument : Reader.document text.toList with
  | error r =>
    rw [hdocument] at h
    exact absurd h (by simp [Except.mapError])
  | ok v' =>
    rw [hdocument] at h
    obtain rfl : v' = v := Except.ok.inj h
    unfold Reader.document at hdocument
    split at hdocument
    · exact absurd hdocument (by simp)
    · split at hdocument
      · exact absurd hdocument (by simp)
      · next hvalue =>
        split at hdocument
        · obtain rfl := Except.ok.inj hdocument
          exact (Reader.isSound _).value hvalue
        · exact absurd hdocument (by simp)

end Json

end DeclGraph
