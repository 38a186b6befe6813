import DeclGraph.Proofs.Dictionary
import DeclGraph.Proofs.Encoding.Cells

/-!
# Cells that are filled again

Entries of a map whose keys have one text share a cell, and what is written last stays.
`Emission.Settles` says what some cells read as when values are written into them one after another;
`Emission.Lays` says what one step of writing does to the cells when its new cells may be shared.
Opening an object with any keys is such a step, and it builds the map of its entries
(`lays_openObject`); so is every step whose new cells are told apart (`Opens.lays`).

What such a step leaves alone is `Emission.Keeps`, which holds of a whole run as well.
-/

namespace DeclGraph

namespace Encoding

namespace Emission

open Draft

/-! ### Filling cells one after another -/

/-- The values `ws` are written into the cells `cs` one after another: each cell reads as the value
that comes to it last. -/
inductive Settles (cells : Array Draft) : List CellId → List Json → Prop
  /-- Nothing is written. -/
  | nil : Settles cells [] []
  /-- A value stays if nothing is written into its cell afterwards. -/
  | cons {c : CellId} {w : Json} {cs : List CellId} {ws : List Json}
    (reads : c ∉ cs → ReadsAs cells c w) (rest : Settles cells cs ws) :
    Settles cells (c :: cs) (w :: ws)

namespace Settles

variable {cells : Array Draft} {cs cs₁ cs₂ : List CellId} {ws ws₁ ws₂ : List Json}

theorem length_eq (h : Settles cells cs ws) : ws.length = cs.length := by
  induction h with
  | nil => rfl
  | cons _ _ ih => rw [List.length_cons, List.length_cons, ih]

/-- Cells that are told apart read as what is written into them. -/
theorem forall₂ (h : Settles cells cs ws) (hnd : cs.Nodup) :
    List.Forall₂ (ReadsAs cells) cs ws := by
  induction h with
  | nil => exact .nil
  | cons reads _ ih =>
    obtain ⟨hc, hnd⟩ := List.nodup_cons.1 hnd
    exact .cons (reads hc) (ih hnd)

/-- What is written into cells that have nothing in common is told apart. -/
theorem append (h : Settles cells (cs₁ ++ cs₂) (ws₁ ++ ws₂)) (hlen : ws₁.length = cs₁.length)
    (hapart : ∀ c ∈ cs₁, c ∉ cs₂) : Settles cells cs₁ ws₁ ∧ Settles cells cs₂ ws₂ := by
  induction cs₁ generalizing ws₁ with
  | nil =>
    obtain rfl := List.length_eq_zero_iff.1 hlen
    exact ⟨.nil, h⟩
  | cons c cs₁ ih =>
    obtain ⟨w, ws₁, rfl⟩ := List.exists_cons_of_length_eq_add_one hlen
    rw [List.cons_append, List.cons_append] at h
    cases h with
    | cons reads rest =>
      obtain ⟨hc, hapart⟩ := List.forall_mem_cons.1 hapart
      obtain ⟨h₁, h₂⟩ := ih rest (by simpa using hlen) hapart
      exact ⟨.cons (fun hnot => reads (by simp [hnot, hc])) h₁, h₂⟩

/-- Values that are written under keys, the same cell for the same key, make up a map. -/
theorem readsAs_of_get? {f : String → CellId} {keys : List String}
    (h : Settles cells (keys.map f) ws) (hf : ∀ k ∈ keys, ∀ k' ∈ keys, f k = f k' → k = k')
    {k : String} {w : Json} (hk : Entries.get? k (Entries.ofList (keys.zip ws)) = some w) :
    ReadsAs cells (f k) w := by
  induction keys generalizing ws with
  | nil => exact absurd hk (by simp [Entries.ofList, Entries.get?])
  | cons k' keys ih =>
    rw [List.map_cons] at h
    cases h with
    | @cons _ w' _ ws reads rest =>
      rw [List.zip_cons_cons, Entries.get?_ofList_cons] at hk
      cases hlater : Entries.get? k (Entries.ofList (keys.zip ws)) with
      | some _ =>
        rw [hlater] at hk
        refine ih rest (fun a ha b hb => ?_) (hlater.trans hk)
        exact hf a (List.mem_cons_of_mem _ ha) b (List.mem_cons_of_mem _ hb)
      | none =>
        -- the key does not come again, so nothing is written into its cell afterwards
        rw [hlater, Option.none_or] at hk
        split_ifs at hk with heq
        obtain rfl := heq
        obtain rfl := Option.some.inj hk
        refine reads fun hmem => ?_
        obtain ⟨a, ha, hfa⟩ := List.mem_map.1 hmem
        obtain rfl := hf a (List.mem_cons_of_mem _ ha) k' List.mem_cons_self hfa
        refine Entries.get?_eq_none_iff.1 hlater ?_
        have hlen : ws.length = keys.length := by rw [rest.length_eq, List.length_map]
        rwa [Entries.keys_ofList, List.mem_eraseDups, List.map_fst_zip hlen.ge]

end Settles

/-! ### Steps -/

variable {e e₁ : Emission} {cell : Nat}

/-- What a step does with the cell on top of the stack: `e₁` has a draft in `cell`, the values
`vs` with new cells in front of the stack of `e`, and no other cell changed.  When `us` are written
into the new cells in the end, then `cell` reads as `build us`. -/
structure Lays (e : Emission) (cell : Nat) (e₁ : Emission) (vs : List Value)
    (cs : List Nat) (build : List Json → Json) : Prop where
  /-- The values to be written next are those of the draft. -/
  stack : e₁.stack = vs.zip cs ++ e.stack
  /-- There is a cell for every value. -/
  length : cs.length = vs.length
  /-- The new cells are new. -/
  fresh : ∀ c ∈ cs, e.cells.size ≤ c ∧ c < e₁.cells.size
  /-- Cells are only added. -/
  size : e.cells.size ≤ e₁.cells.size
  /-- The other cells keep their drafts. -/
  frame : ∀ c < e.cells.size, c ≠ cell → e₁.cells[c]? = e.cells[c]?
  /-- The cell is read from the new ones. -/
  reads : ∀ (cells : Array Draft) (us : List Json),
    (∀ c < e₁.cells.size, c = cell ∨ (e.cells.size ≤ c ∧ c ∉ cs) → cells[c]? = e₁.cells[c]?) →
    Settles cells cs us → ReadsAs cells cell (build us)

/-- A step whose new cells are told apart. -/
theorem Opens.lays {vs : List Value} {cs : List Nat} {build : List Json → Json}
    (o : Opens e cell e₁ vs cs build) : Lays e cell e₁ vs cs build where
  stack := o.stack
  length := o.length
  fresh := o.fresh
  size := o.size
  frame := o.frame
  reads cells us hcells hus := o.reads cells us hcells (hus.forall₂ o.nodup)

/-- Opening an object with any keys: it becomes the map of its entries. -/
theorem lays_openObject (e : Emission) (hcell : cell < e.cells.size)
    (entries : List (String × Value)) : ∃ cs, Lays e cell (e.openObject cell [] entries)
      (entries.map Prod.snd) cs
      fun us => .object (Entries.ofList ((entries.map Prod.fst).zip us)) := by
  set keys := entries.map Prod.fst with hkeys
  set new := List.range' e.cells.size keys.eraseDups.length with hnew
  have hslots : slots e.cells.size keys = keys.eraseDups.zip new := by
    rw [slots, List.zipIdx_eq_zip_range']
  let slot (key : String) : CellId := (Entries.get? key (keys.eraseDups.zip new)).getD 0
  -- the keys have the new cells, each its own
  have hslot : keys.eraseDups.map slot = new :=
    map_slot_of_nodup (nodup_eraseDups keys) (by simp [hnew])
  have hopen : e.openObject cell [] entries =
      { e with
        cells := e.cells.setIfInBounds cell (.object (keys.eraseDups.zip new))
          ++ Array.replicate new.length .pending
        stack := (entries.map Prod.snd).zip (keys.map slot) ++ e.stack } := by
    rw [openObject, List.map_nil, List.nil_append, ← hkeys, hslots]
    have hstack : (entries.map Prod.snd).zip (keys.map slot)
        = entries.map fun x => (x.2, slot x.1) := by
      rw [hkeys, List.map_map, List.zip_map']; rfl
    rw [hstack]
    simp [hnew, slot]
  have hmem : ∀ c ∈ keys.map slot, c ∈ new := by
    intro c hc
    obtain ⟨k, hk, rfl⟩ := List.mem_map.1 hc
    rw [← hslot]
    exact List.mem_map_of_mem (List.mem_eraseDups.2 hk)
  have hsize : (e.openObject cell [] entries).cells.size = e.cells.size + new.length := by
    rw [hopen, Array.size_append, Array.size_setIfInBounds, Array.size_replicate]
  have hbounds : ∀ c ∈ new, e.cells.size ≤ c ∧ c < e.cells.size + new.length := by
    intro c hc
    have := List.mem_range'_1.1 hc
    rwa [hnew, List.length_range']
  refine ⟨keys.map slot, by rw [hopen], by simp [hkeys], fun c hc => ?_, by omega,
    fun c hc hne => ?_, fun cells us hcells hus => ?_⟩
  · rw [hsize]
    exact hbounds c (hmem c hc)
  · rw [hopen, Array.getElem?_append_left (by simpa), Array.getElem?_setIfInBounds_ne (Ne.symm hne)]
  · have hdraft : cells[cell]? = some (.object (keys.eraseDups.zip new)) := by
      rw [hcells cell (by omega) (.inl rfl), hopen, Array.getElem?_append_left (by simpa),
        Array.getElem?_setIfInBounds_self_of_lt hcell]
    have hlen : us.length = keys.length := by rw [hus.length_eq, List.length_map]
    set built := Entries.ofList (keys.zip us) with hbuilt
    have hfst : built.map Prod.fst = keys.eraseDups := by
      have := Entries.keys_ofList (keys.zip us)
      rwa [List.map_fst_zip hlen.ge] at this
    have hinj : ∀ k ∈ keys, ∀ k' ∈ keys, slot k = slot k' → k = k' := by
      have hnew : (keys.eraseDups.map slot).Nodup := hslot ▸ List.nodup_range'
      intro k hk k' hk'
      exact List.inj_on_of_nodup_map hnew (List.mem_eraseDups.2 hk) (List.mem_eraseDups.2 hk')
    have hreads : List.Forall₂ (ReadsAs cells) new (built.map Prod.snd) := by
      rw [← hslot, ← hfst, List.map_map, List.forall₂_map_left_iff, List.forall₂_map_right_iff,
        List.forall₂_same]
      intro x hx
      exact hus.readsAs_of_get? hinj
        (Entries.get?_of_mem (Entries.nodup_keys_ofList _) hx)
    have hobject := readsAs_object hdraft
      (fun d hd => lt_of_lt_of_le hcell (hbounds d hd).1) hreads
    rwa [← hfst, List.zip_map', List.map_id'] at hobject

/-- Cells are only added, and those that are not on the stack keep their drafts. -/
structure Keeps (e e' : Emission) : Prop where
  /-- Cells are only added. -/
  size : e.cells.size ≤ e'.cells.size
  /-- A cell that is not on the stack keeps its draft. -/
  frame : ∀ c < e.cells.size, c ∉ e.stack.map Prod.snd → e'.cells[c]? = e.cells[c]?

namespace Lays

variable {cells : Array Draft} {named named' : List NodeId} {stack : List (Value × CellId)}
  {v : Value} {e' : Emission} {vs : List Value} {cs : List Nat} {build : List Json → Json}

theorem map_fst_stack (l : Lays e cell e₁ vs cs build) :
    e₁.stack.map Prod.fst = vs ++ e.stack.map Prod.fst := by
  rw [l.stack, List.map_append, List.map_fst_zip l.length.ge]

theorem map_snd_stack (l : Lays e cell e₁ vs cs build) :
    e₁.stack.map Prod.snd = cs ++ e.stack.map Prod.snd := by
  rw [l.stack, List.map_append, List.map_snd_zip l.length.le]

/-- The cells on the stack are there after the step. -/
theorem lt (l : Lays e cell e₁ vs cs build) (h : ∀ c ∈ e.stack.map Prod.snd, c < e.cells.size) :
    ∀ c ∈ e₁.stack.map Prod.snd, c < e₁.cells.size := by
  intro c hc
  rw [l.map_snd_stack] at hc
  rcases List.mem_append.1 hc with hc | hc
  · exact (l.fresh c hc).2
  · exact lt_of_lt_of_le (h c hc) l.size

theorem keeps (l : Lays ⟨cells, named', stack⟩ cell e₁ vs cs build) (hk : Keeps e₁ e') :
    Keeps ⟨cells, named, (v, cell) :: stack⟩ e' := by
  refine ⟨l.size.trans hk.size, fun c hc hmem => ?_⟩
  rw [List.map_cons, List.mem_cons, not_or] at hmem
  rw [hk.frame c (lt_of_lt_of_le hc l.size), l.frame c hc hmem.1]
  rw [l.map_snd_stack, List.mem_append, not_or]
  exact ⟨fun hcs => absurd hc (not_lt.2 (l.fresh c hcs).1), hmem.2⟩

/-- When `us` are written into the new cells and `ws` into those that were on the stack, then
`build us` is written into the cell of the step. -/
theorem settles (l : Lays ⟨cells, named', stack⟩ cell e₁ vs cs build)
    (hlt : ∀ c ∈ cell :: stack.map Prod.snd, c < cells.size) (hk : Keeps e₁ e') {us ws : List Json}
    (hlen : us.length = cs.length) (h : Settles e'.cells (e₁.stack.map Prod.snd) (us ++ ws)) :
    Settles e'.cells (cell :: stack.map Prod.snd) (build us :: ws) := by
  obtain ⟨hcell, hstack⟩ := List.forall_mem_cons.1 hlt
  rw [l.map_snd_stack] at h
  obtain ⟨hus, hws⟩ := h.append hlen fun c hc hmem =>
    absurd (hstack c hmem) (not_lt.2 (l.fresh c hc).1)
  refine .cons (fun hnot => l.reads _ us (fun c hc hor => hk.frame c hc ?_) hus) hws
  rw [l.map_snd_stack, List.mem_append, not_or]
  rcases hor with rfl | ⟨hge, hcs⟩
  · exact ⟨fun hmem => absurd hcell (not_lt.2 (l.fresh _ hmem).1), hnot⟩
  · exact ⟨hcs, fun hmem => absurd (hstack c hmem) (not_lt.2 hge)⟩

end Lays

end Emission

end Encoding

end DeclGraph
