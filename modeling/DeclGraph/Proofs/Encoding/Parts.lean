import DeclGraph.Proofs.Encoding.Document

/-!
# Parts of a document

`Json.parts` lists all that stands in a document: a value stands in the list with a position exactly
if the position leads to it (`mem_parts_iff`), and the positions go up (`sorted_parts`).  The order
of positions is therefore the order of the text.
-/

namespace DeclGraph

namespace Json

/-! ### Positions -/

@[simp] theorem length_positions (p : Position) (k n : Nat) : (positions p k n).length = n := by
  simp [positions]

theorem positions_succ (p : Position) (k n : Nat) :
    positions p k (n + 1) = (p ++ [k]) :: positions p (k + 1) n := by
  rw [positions, List.range'_succ, List.map_cons]; rfl

theorem positions_add (p : Position) (k m n : Nat) :
    positions p k (m + n) = positions p k m ++ positions p (k + m) n := by
  simp only [positions, ← List.map_append, List.range'_append_1]

/-- What stands in values at given positions. -/
def partsAt (ps : List Position) (ws : List Json) : List (Position × Json) :=
  (ps.zip ws).flatMap fun x => x.2.parts x.1

@[simp] theorem partsAt_nil (ws : List Json) : partsAt [] ws = [] := rfl

@[simp] theorem partsAt_cons (p : Position) (ps : List Position) (w : Json) (ws : List Json) :
    partsAt (p :: ps) (w :: ws) = w.parts p ++ partsAt ps ws := rfl

theorem partsAt_append {ps qs : List Position} {us ws : List Json} (h : ps.length = us.length) :
    partsAt (ps ++ qs) (us ++ ws) = partsAt ps us ++ partsAt qs ws := by
  rw [partsAt, List.zip_append h, List.flatMap_append]; rfl

theorem parts_eq (p : Position) (w : Json) :
    w.parts p = (p, w) :: partsAt (positions p 0 w.children.length) w.children := by
  rw [parts, partsAt, List.flatMap_subtype (g := fun x => x.2.parts x.1) (by intros; rfl),
    List.unattach_attach]

theorem parts_array (p : Position) (us : List Json) :
    (Json.array us).parts p = (p, .array us) :: partsAt (positions p 0 us.length) us :=
  parts_eq p _

theorem mem_partsAt_iff {p : Position} {k : Nat} {ws : List Json} {x : Position × Json} :
    x ∈ partsAt (positions p k ws.length) ws ↔
      ∃ (i : Nat) (c : Json), ws[i]? = some c ∧ x ∈ c.parts (p ++ [k + i]) := by
  induction ws generalizing k with
  | nil => simp [positions]
  | cons w ws ih =>
    rw [List.length_cons, positions_succ, partsAt_cons, List.mem_append, ih]
    constructor
    · rintro (h | ⟨i, c, hc, h⟩)
      · exact ⟨0, w, rfl, h⟩
      · exact ⟨i + 1, c, by simpa using hc, by rwa [show k + (i + 1) = k + 1 + i by omega]⟩
    · rintro ⟨i, c, hc, h⟩
      cases i with
      | zero =>
        obtain rfl : w = c := by simpa using hc
        exact .inl h
      | succ i =>
        exact .inr ⟨i, c, by simpa using hc, by rwa [show k + 1 + i = k + (i + 1) by omega]⟩

/-- A value stands among the parts exactly where a position leads to it. -/
theorem mem_parts_iff {w u : Json} {p q : Position} :
    (q, u) ∈ w.parts p ↔ ∃ x, q = p ++ x ∧ w.at? x = some u := by
  -- on the size, because the children of an object stand in pairs with their keys
  induction h : sizeOf w using Nat.strong_induction_on generalizing w p with
  | _ n ih =>
    rw [parts_eq, List.mem_cons, mem_partsAt_iff]
    constructor
    · rintro (heq | ⟨i, c, hc, hmem⟩)
      · obtain ⟨rfl, rfl⟩ := Prod.mk.inj heq
        exact ⟨[], (List.append_nil q).symm, rfl⟩
      · have hlt := sizeOf_lt_of_mem_children (List.mem_of_getElem? hc)
        obtain ⟨x, rfl, hx⟩ := (ih _ (h ▸ hlt) rfl).1 hmem
        exact ⟨i :: x, by simp, by rw [at?, hc]; exact hx⟩
    · rintro ⟨x, rfl, hx⟩
      cases x with
      | nil =>
        obtain rfl : w = u := Option.some.inj hx
        exact .inl (by rw [List.append_nil])
      | cons i x =>
        obtain ⟨c, hc, hx⟩ := Option.bind_eq_some_iff.1 hx
        have hlt := sizeOf_lt_of_mem_children (List.mem_of_getElem? hc)
        exact .inr ⟨i, c, hc, (ih _ (h ▸ hlt) rfl).2 ⟨x, by simp, hx⟩⟩

theorem mem_parts_nil_iff {w u : Json} {q : Position} :
    (q, u) ∈ w.parts [] ↔ w.at? q = some u := by
  rw [mem_parts_iff]
  exact ⟨fun ⟨_, hq, hx⟩ => by rwa [hq, List.nil_append], fun h => ⟨q, rfl, h⟩⟩

/-! ### Order -/

theorem lt_append_cons (p : Position) (i : Nat) (x : Position) : p < p ++ i :: x := by
  conv_lhs => rw [← List.append_nil p]
  exact List.append_left_lt (List.nil_lt_cons _ _)

theorem append_cons_lt (p : Position) {i k : Nat} (h : i < k) (x y : Position) :
    p ++ i :: x < p ++ k :: y :=
  List.append_left_lt (List.cons_lt_cons_iff.2 (.inl h))

/-- Positions go up in the order of the text. -/
theorem sorted_parts (p : Position) (w : Json) :
    ((w.parts p).map Prod.fst).Pairwise (· < ·) := by
  induction h : sizeOf w using Nat.strong_induction_on generalizing w p with
  | _ n ih =>
    rw [parts_eq, List.map_cons, List.pairwise_cons]
    constructor
    · intro q hq
      obtain ⟨⟨q, u⟩, hx, rfl⟩ := List.mem_map.1 hq
      obtain ⟨i, c, -, hmem⟩ := mem_partsAt_iff.1 hx
      obtain ⟨x, rfl, -⟩ := mem_parts_iff.1 hmem
      rw [List.append_assoc]
      exact lt_append_cons p _ x
    · -- inside a child by induction; between two children the number of the child decides
      have hchildren : ∀ c ∈ w.children, ∀ p, ((c.parts p).map Prod.fst).Pairwise (· < ·) :=
        fun c hc p => ih _ (h ▸ sizeOf_lt_of_mem_children hc) p c rfl
      suffices ∀ k, ((partsAt (positions p k w.children.length) w.children).map Prod.fst).Pairwise
          (· < ·) from this 0
      generalize w.children = ws at hchildren
      induction ws with
      | nil => intro k; simp [positions]
      | cons w ws ihs =>
        intro k
        rw [List.length_cons, positions_succ, partsAt_cons, List.map_append, List.pairwise_append]
        refine ⟨hchildren w List.mem_cons_self _,
          ihs (fun c hc => hchildren c (List.mem_cons_of_mem _ hc)) (k + 1), ?_⟩
        intro a ha b hb
        obtain ⟨⟨a, u⟩, hu, rfl⟩ := List.mem_map.1 ha
        obtain ⟨⟨b, v⟩, hv, rfl⟩ := List.mem_map.1 hb
        obtain ⟨x, rfl, -⟩ := mem_parts_iff.1 hu
        obtain ⟨i, c, -, hv⟩ := mem_partsAt_iff.1 hv
        obtain ⟨y, rfl, -⟩ := mem_parts_iff.1 hv
        rw [List.append_assoc, List.append_assoc]
        exact append_cons_lt p (by omega) x y

end Json

end DeclGraph
