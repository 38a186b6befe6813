import DeclGraph.Encoding.Basic
import DeclGraph.Proofs.Entries

/-!
# Cells

`Draft.ReadsAs` says which value a cell reads as, however the reading is bounded.
`Emission.Opens` says what one step of writing does to the cells: the cell it works on gets a draft
whose parts are new cells, and no other cell changes.  Filling a cell, opening an array and opening
an object are such steps (`opens_fill`, `opens_openArray`, `opens_openObject`).
-/

namespace DeclGraph

namespace Encoding

/-! ### Reading cells -/

namespace Draft

/-- A cell reads as a value, however far the reading may go. -/
def ReadsAs (cells : Array Draft) (c : Nat) (w : Json) : Prop :=
  c < cells.size ∧ ∀ fuel, cells.size - c ≤ fuel → readWithin cells fuel c = w

variable {cells : Array Draft} {c : Nat}

theorem ReadsAs.read {w : Json} (h : ReadsAs cells 0 w) : read cells = w :=
  h.2 _ (Nat.sub_le _ _)

theorem readWithin_succ (fuel : Nat) : readWithin cells (fuel + 1) c =
    match cells.getD c .pending with
    | .pending => .null
    | .leaf v => v
    | .array items => .array (items.map (readWithin cells fuel))
    | .object entries => .object (entries.map fun (k, c) => (k, readWithin cells fuel c)) := rfl

theorem readsAs_leaf {w : Json} (hc : cells[c]? = some (.leaf w)) : ReadsAs cells c w := by
  obtain ⟨hlt, -⟩ := Array.getElem?_eq_some_iff.1 hc
  refine ⟨hlt, fun fuel hfuel => ?_⟩
  obtain ⟨fuel, rfl⟩ : ∃ n, fuel = n + 1 := ⟨fuel - 1, by omega⟩
  rw [readWithin_succ, Array.getD_eq_getD_getElem?, hc]; rfl

/-- Parts that stand behind a cell are read with less fuel. -/
theorem map_readWithin {cs : List Nat} {us : List Json} {fuel : Nat}
    (hfuel : cells.size - c ≤ fuel + 1) (hbehind : ∀ d ∈ cs, c < d)
    (h : List.Forall₂ (ReadsAs cells) cs us) : cs.map (readWithin cells fuel) = us := by
  induction h with
  | nil => rfl
  | @cons d u cs us hd _ ih =>
    have hlt := hbehind d List.mem_cons_self
    have hsize := hd.1
    rw [List.map_cons, hd.2 fuel (by omega), ih fun x hx => hbehind x (List.mem_cons_of_mem _ hx)]

theorem readsAs_array {cs : List Nat} {us : List Json} (hc : cells[c]? = some (.array cs))
    (hbehind : ∀ d ∈ cs, c < d) (h : List.Forall₂ (ReadsAs cells) cs us) :
    ReadsAs cells c (.array us) := by
  obtain ⟨hlt, -⟩ := Array.getElem?_eq_some_iff.1 hc
  refine ⟨hlt, fun fuel hfuel => ?_⟩
  obtain ⟨fuel, rfl⟩ : ∃ n, fuel = n + 1 := ⟨fuel - 1, by omega⟩
  rw [readWithin_succ, Array.getD_eq_getD_getElem?, hc]
  show Json.array (cs.map (readWithin cells fuel)) = _
  rw [map_readWithin hfuel hbehind h]

theorem readsAs_object {keys : List String} {cs : List Nat} {us : List Json}
    (hc : cells[c]? = some (.object (keys.zip cs))) (hbehind : ∀ d ∈ cs, c < d)
    (h : List.Forall₂ (ReadsAs cells) cs us) :
    ReadsAs cells c (.object (keys.zip us)) := by
  obtain ⟨hlt, -⟩ := Array.getElem?_eq_some_iff.1 hc
  refine ⟨hlt, fun fuel hfuel => ?_⟩
  obtain ⟨fuel, rfl⟩ : ∃ n, fuel = n + 1 := ⟨fuel - 1, by omega⟩
  rw [readWithin_succ, Array.getD_eq_getD_getElem?, hc]
  show Json.object ((keys.zip cs).map fun x => (x.1, readWithin cells fuel x.2)) = _
  rw [← map_readWithin hfuel hbehind h, List.zip_map_right]
  rfl

end Draft

namespace Emission

open Draft

variable {e e₁ : Emission} {cell : Nat}

/-- The cells on the stack are told apart, and they are there. -/
structure Tidy (e : Emission) : Prop where
  /-- No cell is filled from two places of the stack. -/
  nodup : (e.stack.map Prod.snd).Nodup
  /-- The cells are there. -/
  lt : ∀ c ∈ e.stack.map Prod.snd, c < e.cells.size

/-- What a step does with the cell on top of the stack: `e₁` has a draft in `cell`, the values
`vs` with new cells in front of the stack of `e`, and no other cell changed.  When the new cells
read as `us` in the end, then `cell` reads as `build us`. -/
structure Opens (e : Emission) (cell : Nat) (e₁ : Emission) (vs : List Value)
    (cs : List Nat) (build : List Json → Json) : Prop where
  /-- The values to be written next are those of the draft. -/
  stack : e₁.stack = vs.zip cs ++ e.stack
  /-- There is a cell for every value. -/
  length : cs.length = vs.length
  /-- The new cells are told apart. -/
  nodup : cs.Nodup
  /-- The new cells are new. -/
  fresh : ∀ c ∈ cs, e.cells.size ≤ c ∧ c < e₁.cells.size
  /-- Cells are only added. -/
  size : e.cells.size ≤ e₁.cells.size
  /-- The other cells keep their drafts. -/
  frame : ∀ c < e.cells.size, c ≠ cell → e₁.cells[c]? = e.cells[c]?
  /-- The cell is read from the new ones. -/
  reads : ∀ (cells : Array Draft) (us : List Json),
    (∀ c < e₁.cells.size, c = cell ∨ (e.cells.size ≤ c ∧ c ∉ cs) → cells[c]? = e₁.cells[c]?) →
    List.Forall₂ (ReadsAs cells) cs us → ReadsAs cells cell (build us)

theorem opens_fill (e : Emission) (hcell : cell < e.cells.size) (w : Json) :
    Opens e cell (e.fill cell w) [] [] fun _ => w where
  stack := rfl
  length := rfl
  nodup := List.nodup_nil
  fresh c h := by simp at h
  size := by simp [fill]
  frame c hc hne := by simp [fill, Array.getElem?_setIfInBounds_ne (Ne.symm hne)]
  reads cells us hcells _ := by
    refine readsAs_leaf ?_
    rw [hcells cell (by simpa [fill] using hcell) (.inl rfl), fill,
      Array.getElem?_setIfInBounds_self_of_lt hcell]

theorem opens_openArray (e : Emission) (hcell : cell < e.cells.size) (vs : List Value) :
    Opens e cell (e.openArray cell vs) vs (List.range' e.cells.size vs.length) .array where
  stack := rfl
  length := List.length_range'
  nodup := List.nodup_range'
  fresh c h := by
    have := List.mem_range'_1.1 h
    simp [openArray]; omega
  size := by simp [openArray]
  frame c hc hne := by
    rw [openArray, Array.getElem?_append_left (by simpa using hc),
      Array.getElem?_setIfInBounds_ne (Ne.symm hne)]
  reads cells us hcells h := by
    refine readsAs_array ?_ (fun d hd => ?_) h
    · rw [hcells cell (by simp [openArray]; omega) (.inl rfl), openArray,
        Array.getElem?_append_left (by simpa using hcell),
        Array.getElem?_setIfInBounds_self_of_lt hcell]
    · exact lt_of_lt_of_le hcell (List.mem_range'_1.1 hd).1

/-! ### Opening an object -/

/-- Keys that are told apart get one cell each, in order. -/
theorem slots_of_nodup (n : Nat) {keys : List String} (h : keys.Nodup) :
    slots n keys = keys.zip (List.range' n keys.length) := by
  have herase : keys.eraseDups = keys := by
    induction keys with
    | nil => rfl
    | cons k rest ih =>
      rw [List.nodup_cons] at h
      have hfilter : (rest.filter fun b => !b == k) = rest := by
        refine List.filter_eq_self.2 fun b hb => ?_
        have : b ≠ k := fun hbk => h.1 (hbk ▸ hb)
        simpa using this
      rw [List.eraseDups_cons, hfilter, ih h.2]
  rw [slots, herase, List.zipIdx_eq_zip_range']

/-- The cells of keys that are told apart. -/
theorem map_slot_of_nodup {keys : List String} (h : keys.Nodup) {cs : List Nat}
    (hlen : cs.length = keys.length) :
    keys.map (fun k => (Entries.get? k (keys.zip cs)).getD 0) = cs := by
  refine List.ext_getElem (by simpa using hlen.symm) fun i hi hi' => ?_
  have hk : i < keys.length := by simpa using hi
  have hmem : (keys[i], cs[i]) ∈ keys.zip cs := by
    rw [← List.getElem_zip (h := by simpa [hlen] using hi)]
    exact List.getElem_mem _
  have hkeys : (Entries.keys (keys.zip cs)).Nodup := by
    rw [Entries.keys, List.map_fst_zip hlen.ge]; exact h
  rw [List.getElem_map, Entries.get?_of_mem hkeys hmem, Option.getD_some]

/-- Filling some cells leaves the others as they are. -/
theorem getElem?_foldl_set_of_notMem {fills : List (Nat × Draft)} {cells : Array Draft} {c : Nat}
    (h : c ∉ fills.map Prod.fst) :
    (fills.foldl (fun cells x => cells.setIfInBounds x.1 x.2) cells)[c]? = cells[c]? := by
  induction fills generalizing cells with
  | nil => rfl
  | cons x rest ih =>
    rw [List.map_cons, List.mem_cons, not_or] at h
    rw [List.foldl_cons, ih h.2, Array.getElem?_setIfInBounds_ne (Ne.symm h.1)]

/-- Cells that are filled once hold what they were filled with. -/
theorem getElem?_foldl_set_of_mem {fills : List (Nat × Draft)} {cells : Array Draft}
    (hnd : (fills.map Prod.fst).Nodup) {x : Nat × Draft} (hx : x ∈ fills)
    (hlt : x.1 < cells.size) :
    (fills.foldl (fun cells x => cells.setIfInBounds x.1 x.2) cells)[x.1]? = some x.2 := by
  induction fills generalizing cells with
  | nil => simp at hx
  | cons y rest ih =>
    rw [List.map_cons, List.nodup_cons] at hnd
    rw [List.foldl_cons]
    rcases List.mem_cons.1 hx with rfl | hx
    · rw [getElem?_foldl_set_of_notMem hnd.1, Array.getElem?_setIfInBounds_self_of_lt hlt]
    · exact ih hnd.2 hx (by simpa using hlt)

theorem size_foldl_set (fills : List (Nat × Draft)) (cells : Array Draft) :
    (fills.foldl (fun cells x => cells.setIfInBounds x.1 x.2) cells).size = cells.size := by
  induction fills generalizing cells with
  | nil => rfl
  | cons x rest ih => rw [List.foldl_cons, ih, Array.size_setIfInBounds]

/-- An object whose keys are told apart has a cell for each entry; those of `leading` are filled
at once, and the others wait on the stack. -/
theorem openObject_eq {leading : List (String × Json)} {entries : List (String × Value)}
    (h : (leading.map Prod.fst ++ entries.map Prod.fst).Nodup) :
    e.openObject cell leading entries =
      { e with
        cells := ((List.range' e.cells.size leading.length).zip
            (leading.map fun x => Draft.leaf x.2)).foldl
          (fun cells x => cells.setIfInBounds x.1 x.2)
          ((e.cells.setIfInBounds cell (.object
            ((leading.map Prod.fst ++ entries.map Prod.fst).zip
              (List.range' e.cells.size (leading.length + entries.length)))))
            ++ Array.replicate (leading.length + entries.length) .pending)
        stack := (entries.map Prod.snd).zip
          (List.range' (e.cells.size + leading.length) entries.length) ++ e.stack } := by
  have hlen : (leading.map Prod.fst ++ entries.map Prod.fst).length
      = leading.length + entries.length := by simp
  have hslots := slots_of_nodup e.cells.size h
  rw [hlen] at hslots
  have hcells : (List.range' e.cells.size (leading.length + entries.length)).length
      = (leading.map Prod.fst ++ entries.map Prod.fst).length := by simp
  -- every key finds the cell of its own place, for the keys are told apart
  have hmap := map_slot_of_nodup h hcells
  rw [List.map_append, ← List.range'_append_1] at hmap
  -- the first cells are those of the leading entries
  obtain ⟨hlead, hentries⟩ := List.append_inj hmap (by simp)
  rw [openObject, hslots]
  rw [← List.range'_append_1] at hslots ⊢
  have hzip : (List.range' e.cells.size leading.length).zip (leading.map fun x => Draft.leaf x.2)
      = leading.map fun x => ((Entries.get? x.1 ((leading.map Prod.fst ++ entries.map Prod.fst).zip
          (List.range' e.cells.size leading.length
            ++ List.range' (e.cells.size + leading.length) entries.length))).getD 0,
          Draft.leaf x.2) := by
    conv_lhs => rw [← hlead]
    rw [List.map_map, List.zip_map']; rfl
  have hstack : (entries.map Prod.snd).zip
      (List.range' (e.cells.size + leading.length) entries.length)
      = entries.map fun x => (x.2, (Entries.get? x.1
          ((leading.map Prod.fst ++ entries.map Prod.fst).zip
            (List.range' e.cells.size leading.length
              ++ List.range' (e.cells.size + leading.length) entries.length))).getD 0) := by
    conv_lhs => rw [← hentries]
    rw [List.map_map, List.zip_map']; rfl
  rw [hzip, hstack, List.foldl_map]
  simp

/-- Opening an object whose keys are told apart. -/
theorem opens_openObject (e : Emission) (hcell : cell < e.cells.size)
    (leading : List (String × Json)) (entries : List (String × Value)) {keys : List String}
    {vs : List Value} (hk : entries.map Prod.fst = keys) (hv : entries.map Prod.snd = vs)
    (h : (leading.map Prod.fst ++ keys).Nodup) :
    Opens e cell (e.openObject cell leading entries) vs
      (List.range' (e.cells.size + leading.length) entries.length)
      fun us => .object (leading ++ keys.zip us) := by
  subst hk hv
  have hfills : ((List.range' e.cells.size leading.length).zip
      (leading.map fun x => Draft.leaf x.2)).map Prod.fst
      = List.range' e.cells.size leading.length := by
    rw [List.map_fst_zip (by simp)]
  have hsize : (e.openObject cell leading entries).cells.size
      = e.cells.size + (leading.length + entries.length) := by
    rw [openObject_eq h, size_foldl_set, Array.size_append, Array.size_setIfInBounds,
      Array.size_replicate]
  have hcell' : (e.openObject cell leading entries).cells[cell]? = some (.object
      ((leading.map Prod.fst ++ entries.map Prod.fst).zip
        (List.range' e.cells.size (leading.length + entries.length)))) := by
    rw [openObject_eq h, getElem?_foldl_set_of_notMem, Array.getElem?_append_left (by simpa),
      Array.getElem?_setIfInBounds_self_of_lt hcell]
    rw [hfills, List.mem_range'_1]; omega
  refine ⟨by rw [openObject_eq h], by simp, List.nodup_range', fun c hc => ?_, by omega,
    fun c hc hne => ?_, fun cells us hcells hus => ?_⟩
  · have := List.mem_range'_1.1 hc
    omega
  · rw [openObject_eq h, getElem?_foldl_set_of_notMem, Array.getElem?_append_left (by simpa),
      Array.getElem?_setIfInBounds_ne (Ne.symm hne)]
    rw [hfills, List.mem_range'_1]; omega
  · -- the entries in front are filled already, the others are read from the new cells
    have hlead : List.Forall₂ (ReadsAs cells) (List.range' e.cells.size leading.length)
        (leading.map Prod.snd) := by
      refine List.forall₂_iff_get.2 ⟨by simp, fun i hi hi' => readsAs_leaf ?_⟩
      have hi₀ : i < leading.length := by simpa using hi'
      simp only [List.get_eq_getElem, List.getElem_range', List.getElem_map, Nat.one_mul]
      rw [hcells _ (by omega) (.inr ⟨by omega, by rw [List.mem_range'_1]; omega⟩), openObject_eq h]
      refine getElem?_foldl_set_of_mem (x := (e.cells.size + i, .leaf leading[i].2))
        (by rw [hfills]; exact List.nodup_range') ?_ (by simp; omega)
      refine List.mem_iff_getElem.2 ⟨i, by simpa using hi₀, ?_⟩
      simp
    have hall : List.Forall₂ (ReadsAs cells)
        (List.range' e.cells.size (leading.length + entries.length))
        (leading.map Prod.snd ++ us) := by
      rw [← List.range'_append_1]
      exact List.rel_append hlead hus
    have hread := readsAs_object ((hcells cell (by omega) (.inl rfl)).trans hcell')
      (fun d hd => lt_of_lt_of_le hcell (List.mem_range'_1.1 hd).1) hall
    rwa [List.zip_append (by simp), List.zip_map', List.map_id'] at hread

end Emission

end Encoding

end DeclGraph
