/-!
# Computations that may fail

Two ways to take a computation of steps apart: one comes to something exactly if it does so in every
step (`exists_of_bind_eq_ok`, `exists_of_mapM_eq_ok`, `exists_bind_eq_ok`, `exists_mapM_eq_ok`), and
one whose steps fail with errors of one kind does so itself (`FailsIn`).
-/

namespace DeclGraph

/-! ### Results -/

/-- A computation that comes to something went well in both its parts. -/
theorem exists_of_bind_eq_ok {ε α β : Type} {x : Except ε α} {f : α → Except ε β} {r : β}
    (h : (x >>= f) = .ok r) : ∃ a, x = .ok a ∧ f a = .ok r := by
  cases x with
  | error e => exact absurd h (by simp [bind, Except.bind])
  | ok a => exact ⟨a, rfl, h⟩

theorem exists_of_map_eq_ok {ε α β : Type} {x : Except ε α} {f : α → β} {r : β}
    (h : x.map f = .ok r) : ∃ a, x = .ok a ∧ f a = r := by
  cases x with
  | error e => exact absurd h (by simp [Except.map])
  | ok a => exact ⟨a, rfl, Except.ok.inj h⟩

theorem exists_eq_ok_of_isOk {ε α : Type} {x : Except ε α} (h : x.isOk) : ∃ a, x = .ok a := by
  cases x with
  | error e => exact absurd h (by simp [Except.isOk, Except.toBool])
  | ok a => exact ⟨a, rfl⟩

/-- One step for each member of a list: each of them came to a member of the result. -/
theorem exists_of_mapM_eq_ok {ε α β : Type} {f : α → Except ε β} {as : List α} {bs : List β}
    (h : as.mapM f = .ok bs) {a : α} (ha : a ∈ as) : ∃ b ∈ bs, f a = .ok b := by
  induction as generalizing bs with
  | nil => exact absurd ha List.not_mem_nil
  | cons first rest ih =>
    rw [List.mapM_cons] at h
    obtain ⟨b, hb, h⟩ := exists_of_bind_eq_ok h
    obtain ⟨others, hothers, h⟩ := exists_of_bind_eq_ok h
    obtain rfl := Except.ok.inj h
    cases ha with
    | head => exact ⟨b, List.mem_cons_self, hb⟩
    | tail _ ha =>
      obtain ⟨b', hb', hf⟩ := ih hothers ha
      exact ⟨b', List.mem_cons_of_mem _ hb', hf⟩

/-- A part that comes to something, and what follows on that. -/
theorem exists_bind_of_eq_ok {ε α β : Type} {x : Except ε α} {f : α → Except ε β} {a : α}
    (hx : x = .ok a) (hf : ∃ b, f a = .ok b) : ∃ b, (x >>= f) = .ok b := by
  rw [hx]
  exact hf

/-- Two parts that come to something do so one after the other. -/
theorem exists_bind_eq_ok {ε α β : Type} {x : Except ε α} {f : α → Except ε β}
    (hx : ∃ a, x = .ok a) (hf : ∀ a, ∃ b, f a = .ok b) : ∃ b, (x >>= f) = .ok b := by
  obtain ⟨a, ha⟩ := hx
  exact exists_bind_of_eq_ok ha (hf a)

/-- Steps that come to something do so for a list. -/
theorem exists_mapM_eq_ok {ε α β : Type} {f : α → Except ε β} {as : List α}
    (hf : ∀ a ∈ as, ∃ b, f a = .ok b) : ∃ bs, as.mapM f = .ok bs := by
  induction as with
  | nil => exact ⟨[], rfl⟩
  | cons first rest ih =>
    rw [List.mapM_cons]
    obtain ⟨hfirst, hrest⟩ := List.forall_mem_cons.1 hf
    exact exists_bind_eq_ok hfirst fun _ => exists_bind_eq_ok (ih hrest) fun _ => ⟨_, rfl⟩

/-- Two parts that come to at least what others come to do so one after the other. -/
theorem bind_eq_ok_of_imp {ε α β : Type} {x x' : Except ε α} {f f' : α → Except ε β} {b : β}
    (hx : ∀ a, x = .ok a → x' = .ok a) (hf : ∀ a, f a = .ok b → f' a = .ok b)
    (h : (x >>= f) = .ok b) : (x' >>= f') = .ok b := by
  obtain ⟨a, ha, hb⟩ := exists_of_bind_eq_ok h
  rw [hx a ha]
  exact hf a hb

/-- Steps that come to at least what others come to do so for a list. -/
theorem mapM_eq_ok_of_imp {ε α β : Type} {f f' : α → Except ε β}
    (hf : ∀ a b, f a = .ok b → f' a = .ok b) {as : List α} {bs : List β}
    (h : as.mapM f = .ok bs) : as.mapM f' = .ok bs := by
  induction as generalizing bs with
  | nil => exact h
  | cons first rest ih =>
    rw [List.mapM_cons] at h ⊢
    obtain ⟨b, hb, h⟩ := exists_of_bind_eq_ok h
    obtain ⟨others, hothers, h⟩ := exists_of_bind_eq_ok h
    rw [hf first b hb, ih hothers]
    exact h

/-! ### Kinds of errors -/

/-- A computation fails with errors of one kind only. -/
structure FailsIn {ε α : Type} (S : ε → Prop) (x : Except ε α) : Prop where
  /-- The kind of its error. -/
  kind : ∀ e, x = .error e → S e

namespace FailsIn

variable {ε α β : Type} {S : ε → Prop} {x : Except ε α} {f : α → Except ε β}

theorem ok (a : α) : FailsIn S (.ok a : Except ε α) := by
  refine ⟨fun e h => ?_⟩
  exact absurd h (by simp)

theorem error {e : ε} (h : S e) : FailsIn S (.error e : Except ε α) := by
  refine ⟨fun e' heq => ?_⟩
  exact Except.error.inj heq ▸ h

/-- A step after another one. -/
theorem bind (hx : FailsIn S x) (hf : ∀ a, FailsIn S (f a)) : FailsIn S (x >>= f) := by
  refine ⟨fun e h => ?_⟩
  cases x with
  | error e' =>
    obtain rfl : e' = e := Except.error.inj h
    exact hx.kind e' rfl
  | ok a => exact (hf a).kind e h

theorem map (g : α → β) (hx : FailsIn S x) : FailsIn S (x.map g) := by
  refine ⟨fun e h => ?_⟩
  cases x with
  | error e' =>
    obtain rfl : e' = e := Except.error.inj h
    exact hx.kind e' rfl
  | ok a => exact absurd h (by simp [Except.map])

/-- One step for each member of a list. -/
theorem mapM (hf : ∀ a, FailsIn S (f a)) (as : List α) : FailsIn S (as.mapM f) := by
  induction as with
  | nil => exact ok []
  | cons a as ih =>
    rw [List.mapM_cons]
    exact (hf a).bind fun b => ih.bind fun bs => ok (b :: bs)

end FailsIn

end DeclGraph
