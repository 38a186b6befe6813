import DeclGraph.Proofs.Encoding.Correspondence
import DeclGraph.Proofs.Encoding.Isomorphism
import DeclGraph.Proofs.Loop

/-!
# Encoding comes to an end

Both walks of encoding are loops that pop a value from a stack: `Counting.next` is a pass of the
one that counts visits, `Emission.next` a pass of the one that writes, and the bounded loops of the
model run these passes (`visitLoop_eq_run`, `Emission.run_eq_run`).

Every place of the root and of the selected fields of a followed node is on the stack or has been
popped, once (`Accounted`).  A pass follows a node that no earlier pass has followed: the first loop
looks at the visits, and the second one at the identifiers, which all nodes have that can be met
again.  So the loops end in any graph, and `encode_ends` says how many passes they make at most.
-/

namespace DeclGraph

namespace Encoding

variable {g : Graph} {rules : Rules} {root : Value}

/-! ### Reached nodes -/

/-- What a missing node refers to is nothing. -/
theorem lt_size_of_mem_outgoing {id next : NodeId} (h : next ∈ outgoing g rules id) :
    id < g.size := by
  by_contra hid
  have habsent : g.node id = .absent := by
    have hid' : ¬ id < g.nodes.size := hid
    simp [Graph.node, Array.getD, hid']
  unfold outgoing selectedValues at h
  cases hsel : rules.fieldsFor (g.node id).schema with
  | error e => simp [selected, hsel, Except.map] at h
  | ok names =>
    have hsub := sublist_of_fieldsFor hsel
    rw [habsent] at hsub
    obtain rfl : names = [] := List.sublist_nil.1 hsub
    simp [selected, hsel, Except.map] at h

/-- The nodes that are reached can be listed, also where the rules do not fit. -/
theorem exists_reached (g : Graph) (rules : Rules) (root : Value) :
    ∃ ids : List NodeId, ids.Nodup ∧ ∀ m, m ∈ ids ↔ Reaches g rules root m := by
  classical
  let ids := ((referencesOf g rules root (List.range g.size)).filter
    fun m => decide (Reaches g rules root m)).dedup
  refine ⟨ids, List.nodup_dedup _, fun m => ?_⟩
  rw [List.mem_dedup, List.mem_filter, decide_eq_true_iff, and_iff_right_iff_imp]
  intro h
  cases h with
  | root h => exact List.mem_append_left _ h
  | @field id next hreached h =>
    refine List.mem_append_right _ (List.mem_flatMap.2 ⟨id, ?_, h⟩)
    exact List.mem_range.2 (lt_size_of_mem_outgoing h)

/-- The number of places in the selected fields of nodes. -/
def selectedPlaces (g : Graph) (rules : Rules) (ids : List NodeId) : Nat :=
  (ids.map fun id => ((selectedValues g rules id).map Value.size).sum).sum

theorem selectedPlaces_concat (ids : List NodeId) (id : NodeId) :
    selectedPlaces g rules (ids ++ [id])
      = selectedPlaces g rules ids + ((selectedValues g rules id).map Value.size).sum := by
  simp [selectedPlaces]

/-- The selected fields of different nodes have no more places than the graph. -/
theorem selectedPlaces_le_places (hg : g.IsProper) {ids : List NodeId} (hnd : ids.Nodup) :
    selectedPlaces g rules ids ≤ g.places := by
  refine le_trans (List.sum_le_sum fun id _ => ?_) (sum_weight_le g hnd)
  cases hsel : rules.fieldsFor (g.node id).schema with
  | error e => simp [selectedValues, selected, hsel, Except.map]
  | ok names => rw [selectedValues_eq hsel]; exact sum_size_selected_le (hg.node id) hsel

/-- Some of the nodes have no more places than all of them. -/
theorem selectedPlaces_le {ids all : List NodeId} (hnd : ids.Nodup) (hsub : ids ⊆ all) :
    selectedPlaces g rules ids ≤ selectedPlaces g rules all := by
  obtain ⟨l, hperm, hl⟩ := List.subperm_of_subset hnd hsub
  rw [selectedPlaces, selectedPlaces, ← (hperm.map _).sum_eq]
  exact (hl.map _).sum_le_sum fun _ _ => Nat.zero_le _

/-! ### What is popped and what is left -/

/-- After `n` passes every place of the root and of the selected fields of the followed nodes is
in a value on the stack, or it has been popped. -/
def Accounted (g : Graph) (rules : Rules) (root : Value) (n : Nat) (stack : List Value)
    (followed : List NodeId) : Prop :=
  n + (stack.map Value.size).sum = root.size + selectedPlaces g rules followed

namespace Accounted

variable {n : Nat} {stack stack' : List Value} {followed : List NodeId} {id : NodeId}

theorem start (g : Graph) (rules : Rules) (root : Value) : Accounted g rules root 0 [root] [] := by
  simp [Accounted, selectedPlaces]

theorem pass {v : Value} (h : Accounted g rules root n (v :: stack) followed)
    (hstack : stack'.Perm (parts v ++ stack)) : Accounted g rules root (n + 1) stack' followed := by
  unfold Accounted at h ⊢
  rw [List.map_cons, List.sum_cons, v.size_eq_parts] at h
  rw [(hstack.map _).sum_eq, List.map_append, List.sum_append]
  omega

theorem again (h : Accounted g rules root n (.node id :: stack) followed) :
    Accounted g rules root (n + 1) stack followed :=
  h.pass (.refl _)

theorem follow (h : Accounted g rules root n (.node id :: stack) followed) {names : List String}
    (hnames : rules.fieldsFor (g.node id).schema = .ok names)
    (hstack : stack'.Perm (names.map (g.node id).get ++ stack)) :
    Accounted g rules root (n + 1) stack' (followed ++ [id]) := by
  unfold Accounted at h ⊢
  rw [List.map_cons, List.sum_cons, Value.size_eq_parts] at h
  rw [selectedPlaces_concat, selectedValues_eq hnames, (hstack.map _).sum_eq, List.map_append,
    List.sum_append]
  simp only [parts, List.map_nil, List.sum_nil] at h
  omega

/-- As long as there is something on the stack, there were fewer passes than places. -/
theorem lt {v : Value} (h : Accounted g rules root n (v :: stack) followed) :
    n < root.size + selectedPlaces g rules followed := by
  unfold Accounted at h
  rw [List.map_cons, List.sum_cons, v.size_eq_parts] at h
  omega

theorem le (h : Accounted g rules root n stack followed) :
    n ≤ root.size + selectedPlaces g rules followed := by
  unfold Accounted at h
  omega

end Accounted

/-! ### Passes -/

/-- The passes of a loop follow no node twice, and apart from the one for the root there are no more
of them than places in the parts of the root and in the selected fields of `ids`. -/
structure Sparing (g : Graph) (rules : Rules) (root : Value) (ids : List NodeId) {σ : Type}
    (followed? : σ → Option NodeId) (passes : List σ) : Prop where
  /-- No node is followed twice. -/
  nodup : (passes.filterMap followed?).Nodup
  /-- There is one pass for each place at most. -/
  length_le : passes.length
    ≤ 1 + (((parts root).map Value.size).sum + selectedPlaces g rules ids)

namespace Sparing

variable {σ ε : Type} {step : σ → Option (Except ε σ)} {followed? : σ → Option NodeId}
  {I : List σ → σ → Prop} {ids : List NodeId} {start : σ}

/-- A loop over a stack of values ends if it keeps an account of the places and follows reached
nodes only, none of them twice. -/
theorem exists_ends (values : σ → List Value) (hids : ∀ id, Reaches g rules root id → id ∈ ids)
    (hnext : ∀ {done s s'}, I done s → step s = some (.ok s') → I (done ++ [s]) s')
    (hvalues : ∀ {s r}, step s = some r → values s ≠ [])
    (hnodup : ∀ {done s}, I done s → (done.filterMap followed?).Nodup)
    (hreaches : ∀ {done s}, I done s → ∀ id ∈ done.filterMap followed?, Reaches g rules root id)
    (hnew : ∀ {done s id}, I done s → followed? s = some id → id ∉ done.filterMap followed?)
    (haccounted : ∀ {done s}, I done s →
      Accounted g rules root done.length (values s) (done.filterMap followed?))
    (hstart : I [] start) :
    ∃ passes r, Loop.Ends step start passes r ∧ Sparing g rules root ids followed? passes := by
  have hplaces {done s} (h : I done s) :
      root.size + selectedPlaces g rules (done.filterMap followed?)
      ≤ 1 + (((parts root).map Value.size).sum + selectedPlaces g rules ids) := by
    have : selectedPlaces g rules (done.filterMap followed?) ≤ selectedPlaces g rules ids :=
      selectedPlaces_le (hnodup h) fun id hid => hids id (hreaches h id hid)
    have := root.size_eq_parts
    omega
  have hlt {done s r} (h : I done s) (hs : step s = some r) :
      done.length < 1 + (((parts root).map Value.size).sum + selectedPlaces g rules ids) := by
    obtain ⟨v, rest, hcons⟩ := List.exists_cons_of_ne_nil (hvalues hs)
    have hacc := haccounted h
    rw [hcons] at hacc
    exact hacc.lt.trans_le (hplaces h)
  refine Loop.exists_ends (I := I) (P := Sparing g rules root ids followed?)
    (fun _ _ _ h hs => hnext h hs) (fun _ _ _ h hs => hlt h hs)
    (fun done s h _ => ⟨hnodup h, (haccounted h).le.trans (hplaces h)⟩)
    (fun done s e h hs => ⟨?_, ?_⟩) hstart
  · -- The pass that fails may have tried to follow one more node.
    rw [List.filterMap_append]
    cases hfollowed : followed? s with
    | none => simpa [hfollowed] using hnodup h
    | some id =>
      rw [List.filterMap_cons_some hfollowed, List.filterMap_nil, ← List.concat_eq_append]
      exact (hnodup h).concat (hnew h hfollowed)
  · rw [List.length_append, List.length_singleton]
    exact Nat.succ_le_of_lt (hlt h hs)

/-- The passes are no more than the steps that the bounded loops have. -/
theorem length_le_steps {passes : List σ} (h : Sparing g rules root ids followed? passes)
    (hg : g.IsProper) (hnd : ids.Nodup) : passes.length ≤ steps g root := by
  have := h.length_le
  have : selectedPlaces g rules ids ≤ g.places := selectedPlaces_le_places hg hnd
  have := root.size_eq_parts
  unfold steps
  omega

end Sparing

/-! ### Counting -/

/-- The state of the loop that counts visits. -/
structure Counting where
  /-- The values to be visited, the next one first. -/
  stack : List Value
  /-- The nodes visited so far, the latest first. -/
  visits : List NodeId

namespace Counting

/-- A pass of the loop. -/
def next (g : Graph) (rules : Rules) (s : Counting) : Option (Except RulesError Counting) :=
  match s.stack with
  | [] => none
  | .node id :: stack =>
    if s.visits.contains id then some (.ok ⟨stack, id :: s.visits⟩)
    else
      some ((selected rules (g.node id)).map fun values =>
        ⟨values.reverse ++ stack, id :: s.visits⟩)
  | v :: stack => some (.ok ⟨(parts v).reverse ++ stack, s.visits⟩)

/-- The node whose selected fields the next pass looks up. -/
def followed? (s : Counting) : Option NodeId :=
  match s.stack with
  | .node id :: _ => if s.visits.contains id then none else some id
  | _ => none

variable {id : NodeId} {stack : List Value} {visits : List NodeId}

theorem next_again (hid : visits.contains id) :
    next g rules ⟨.node id :: stack, visits⟩ = some (.ok ⟨stack, id :: visits⟩) := if_pos hid

theorem next_follow (hid : ¬ visits.contains id) :
    next g rules ⟨.node id :: stack, visits⟩ = some ((selected rules (g.node id)).map fun values =>
      ⟨values.reverse ++ stack, id :: visits⟩) := if_neg hid

theorem next_pass {v : Value} (hv : ∀ id, v ≠ .node id) :
    next g rules ⟨v :: stack, visits⟩ = some (.ok ⟨(parts v).reverse ++ stack, visits⟩) := by
  cases v with
  | node id => exact absurd rfl (hv id)
  | _ => rfl

theorem followed?_pass {v : Value} (hv : ∀ id, v ≠ .node id) :
    followed? ⟨v :: stack, visits⟩ = none := by
  cases v with
  | node id => exact absurd rfl (hv id)
  | _ => rfl

/-- The bounded loop runs passes. -/
theorem visitLoop_eq_run (fuel : Nat) (stack : List Value) (visits : List NodeId) :
    visitLoop g rules fuel stack visits
      = (Loop.run (next g rules) fuel ⟨stack, visits⟩).map Counting.visits := by
  -- both loops take the same step, one case for each kind of value
  induction fuel generalizing stack visits with
  | zero => rfl
  | succ fuel ih =>
    cases stack with
    | nil => rfl
    | cons v stack =>
      by_cases hv : ∀ id, v ≠ .node id
      · rw [visitLoop_pass hv, Loop.run, next_pass hv]
        exact ih _ _
      · push Not at hv
        obtain ⟨id, rfl⟩ := hv
        rw [visitLoop, Loop.run]
        by_cases hid : visits.contains id
        · rw [if_pos hid, next_again hid]
          exact ih _ _
        · rw [if_neg hid, next_follow hid]
          cases selected rules (g.node id) with
          | error e => rfl
          | ok values => exact ih _ _

/-- What holds after some passes of the loop from the root. -/
structure After (g : Graph) (rules : Rules) (root : Value) (done : List Counting) (s : Counting) :
    Prop where
  /-- The loop is a walk, with fuel for the passes that are left. -/
  walk : ∃ fuel, done.length + fuel = steps g root ∧
    Walk g rules root fuel s.stack s.visits (done.filterMap followed?)
  /-- No place was popped more than once. -/
  accounted : Accounted g rules root done.length s.stack (done.filterMap followed?)

namespace After

variable {done : List Counting} {s s' : Counting}

theorem start (g : Graph) (rules : Rules) (root : Value) :
    After g rules root [] ⟨[root], []⟩ :=
  ⟨⟨steps g root, by simp, .start g rules root⟩, .start g rules root⟩

theorem nodup (h : After g rules root done s) : (done.filterMap followed?).Nodup := by
  obtain ⟨_, _, w⟩ := h.walk
  exact w.nodup

theorem reaches (h : After g rules root done s) :
    ∀ id ∈ done.filterMap followed?, Reaches g rules root id := by
  obtain ⟨_, _, w⟩ := h.walk
  exact fun id hid => w.reaches id (List.mem_append_left _ ((w.mem_iff id).1 hid))

/-- A node that is followed was not followed before. -/
theorem notMem (h : After g rules root done s) {id : NodeId} (hid : s.followed? = some id) :
    id ∉ done.filterMap followed? := by
  obtain ⟨_, _, w⟩ := h.walk
  rw [w.mem_iff]
  unfold followed? at hid
  split at hid
  · split at hid
    · exact absurd hid (by simp)
    · next hnot => rwa [← Option.some.inj hid, ← List.contains_iff_mem]
  · exact absurd hid (by simp)

/-- While there is something on the stack, the walk has fuel. -/
theorem exists_walk {v : Value} {stack : List Value} {visits : List NodeId}
    (h : After g rules root done ⟨v :: stack, visits⟩) :
    ∃ fuel, done.length + 1 + fuel = steps g root ∧
      Walk g rules root (fuel + 1) (v :: stack) visits (done.filterMap followed?) := by
  obtain ⟨fuel, hfuel, w⟩ := h.walk
  cases fuel with
  | zero => exact absurd w.stack_eq_nil (by simp)
  | succ fuel => exact ⟨fuel, by omega, w⟩

/-- Every pass leads on in the walk. -/
theorem next (hg : g.IsProper) (h : After g rules root done s)
    (hs : s.next g rules = some (.ok s')) : After g rules root (done ++ [s]) s' := by
  obtain ⟨stack, visits⟩ := s
  cases stack with
  | nil => exact absurd hs (by simp [Counting.next])
  | cons v stack =>
    obtain ⟨fuel, hfuel, w⟩ := h.exists_walk
    have hlen : (done ++ [(⟨v :: stack, visits⟩ : Counting)]).length + fuel = steps g root := by
      simpa using hfuel
    by_cases hv : ∀ id, v ≠ .node id
    · rw [next_pass hv] at hs
      obtain rfl := Except.ok.inj (Option.some.inj hs)
      have hperm := (List.reverse_perm (parts v)).append_right stack
      refine ⟨⟨fuel, hlen, ?_⟩, ?_⟩
      · simpa [List.filterMap_append, followed?_pass hv] using w.pass hv hperm
      · simpa [List.filterMap_append, followed?_pass hv] using h.accounted.pass hperm
    · push Not at hv
      obtain ⟨id, rfl⟩ := hv
      by_cases hid : visits.contains id
      · rw [next_again hid] at hs
        obtain rfl := Except.ok.inj (Option.some.inj hs)
        have hnone : followed? ⟨.node id :: stack, visits⟩ = none := if_pos hid
        refine ⟨⟨fuel, hlen, ?_⟩, ?_⟩
        · simpa [List.filterMap_append, hnone] using
            w.again ((w.mem_iff id).2 (List.contains_iff_mem.1 hid))
        · simpa [List.filterMap_append, hnone] using h.accounted.again
      · rw [next_follow hid] at hs
        have hsome : followed? ⟨.node id :: stack, visits⟩ = some id := if_neg hid
        cases hn : rules.fieldsFor (g.node id).schema with
        | error e => simp [selected, hn, Except.map] at hs
        | ok names =>
          rw [selected, hn] at hs
          obtain rfl := Except.ok.inj (Option.some.inj hs)
          have hperm := (List.reverse_perm (names.map (g.node id).get)).append_right stack
          refine ⟨⟨fuel, hlen, ?_⟩, ?_⟩
          · simpa [List.filterMap_append, hsome] using w.follow hg (h.notMem hsome) hn hperm
          · simpa [List.filterMap_append, hsome] using h.accounted.follow hn hperm

end After

/-- The loop that counts visits ends. -/
theorem exists_ends (hg : g.IsProper) {ids : List NodeId}
    (hids : ∀ m, Reaches g rules root m → m ∈ ids) :
    ∃ passes r, Loop.Ends (next g rules) ⟨[root], []⟩ passes r ∧
      Sparing g rules root ids followed? passes := by
  refine Sparing.exists_ends Counting.stack (I := After g rules root) hids
    (fun h hs => h.next hg hs) (fun {s r} hs hnil => ?_) (fun h => h.nodup) (fun h => h.reaches)
    (fun h hid => h.notMem hid) (fun h => h.accounted) (.start g rules root)
  simp [next, hnil] at hs

end Counting

/-! ### Writing -/

namespace Emission

variable {shared : NodeId → Bool}

/-- A pass of the loop that writes. -/
def next (g : Graph) (rules : Rules) (shared : NodeId → Bool) (e : Emission) :
    Option (Except EncodeError Emission) :=
  match e.stack with
  | [] => none
  | (v, cell) :: stack => some (write g rules shared { e with stack } v cell)

/-- The node whose selected fields the next pass looks up. -/
def followed? (e : Emission) : Option NodeId :=
  match e.stack with
  | (.node id, _) :: _ => if (identifier? e.named id).isSome then none else some id
  | _ => none

theorem followed?_pass {cells : Array Draft} {named : List NodeId} {v : Value} {cell : CellId}
    {stack : List (Value × CellId)} (hv : ∀ id, v ≠ .node id) :
    followed? ⟨cells, named, (v, cell) :: stack⟩ = none := by
  cases v with
  | node id => exact absurd rfl (hv id)
  | _ => rfl

/-- The bounded loop runs passes. -/
theorem run_eq_run (fuel : Nat) (e : Emission) :
    run g rules shared fuel e = Loop.run (next g rules shared) fuel e := by
  induction fuel generalizing e with
  | zero => rfl
  | succ fuel ih =>
    obtain ⟨cells, named, stack⟩ := e
    cases stack with
    | nil => rfl
    | cons x stack =>
      obtain ⟨v, cell⟩ := x
      rw [run, Loop.run, next]
      cases hwrite : write g rules shared ⟨cells, named, stack⟩ v cell with
      | error err => simp only [hwrite]
      | ok e₁ => simp only [hwrite]; exact ih e₁

/-- What holds after some passes of the loop from the root. -/
structure After (g : Graph) (rules : Rules) (root : Value) (shared : NodeId → Bool)
    (done : List Emission) (e : Emission) : Prop where
  /-- The loop is a walk, with fuel for the passes that are left. -/
  tracked : ∃ fuel, done.length + fuel = steps g root ∧
    Tracked g rules root shared fuel e (done.filterMap followed?)
  /-- No place was popped more than once. -/
  accounted : Accounted g rules root done.length (e.stack.map Prod.fst) (done.filterMap followed?)

namespace After

variable {done : List Emission} {e e₁ : Emission} {ids : List NodeId}

theorem start (g : Graph) (rules : Rules) (root : Value) (shared : NodeId → Bool) :
    After g rules root shared [] (.start root) :=
  ⟨⟨steps g root, by simp, .start g rules root shared⟩, .start g rules root⟩

theorem nodup (h : After g rules root shared done e) : (done.filterMap followed?).Nodup := by
  obtain ⟨_, _, t⟩ := h.tracked
  obtain ⟨_, w⟩ := t.walk
  exact w.nodup

theorem reaches (h : After g rules root shared done e) :
    ∀ id ∈ done.filterMap followed?, Reaches g rules root id := by
  obtain ⟨_, _, t⟩ := h.tracked
  obtain ⟨_, w⟩ := t.walk
  exact fun id hid => w.reaches id (List.mem_append_left _ ((w.mem_iff id).1 hid))

/-- While there is something on the stack, the walk has fuel. -/
theorem exists_tracked {cells : Array Draft} {named : List NodeId} {x : Value × CellId}
    {stack : List (Value × CellId)}
    (h : After g rules root shared done ⟨cells, named, x :: stack⟩) :
    ∃ fuel, done.length + 1 + fuel = steps g root ∧
      Tracked g rules root shared (fuel + 1) ⟨cells, named, x :: stack⟩
        (done.filterMap followed?) := by
  obtain ⟨fuel, hfuel, t⟩ := h.tracked
  cases fuel with
  | zero => exact absurd t.stack_eq_nil (by simp)
  | succ fuel => exact ⟨fuel, by omega, t⟩

variable (hnd : ids.Nodup) (hmem : ∀ m, m ∈ ids ↔ Reaches g rules root m)
  (hshared : ∀ id, ReachedTwice g rules root id → shared id = true)

include hnd hmem hshared

/-- A node that is followed was not followed before: it has no identifier, and a node that is met
again has one. -/
theorem notMem (h : After g rules root shared done e) {id : NodeId}
    (hid : e.followed? = some id) : id ∉ done.filterMap followed? := by
  obtain ⟨_, _, t⟩ := h.tracked
  obtain ⟨cells, named, stack⟩ := e
  cases stack with
  | nil => exact absurd hid (by simp [followed?])
  | cons x stack =>
    obtain ⟨v, cell⟩ := x
    by_cases hv : ∀ id, v ≠ .node id
    · exact absurd (hid.symm.trans (followed?_pass hv)) (by simp)
    · push Not at hv
      obtain ⟨m, rfl⟩ := hv
      cases hnamed : identifier? named m with
      | some ref => simp [followed?, hnamed] at hid
      | none =>
        obtain rfl : m = id := by simpa [followed?, hnamed] using hid
        exact t.notMem_followed hnd hmem hshared hnamed

/-- Every pass leads on in the walk. -/
theorem next (hg : g.IsProper) (h : After g rules root shared done e)
    (hs : e.next g rules shared = some (.ok e₁)) : After g rules root shared (done ++ [e]) e₁ := by
  obtain ⟨cells, named, stack⟩ := e
  cases stack with
  | nil => exact absurd hs (by simp [Emission.next])
  | cons x stack =>
    obtain ⟨v, cell⟩ := x
    obtain ⟨fuel, hfuel, t⟩ := h.exists_tracked
    have hlen : (done ++ [(⟨cells, named, (v, cell) :: stack⟩ : Emission)]).length + fuel
        = steps g root := by simpa using hfuel
    have hwrite : write g rules shared ⟨cells, named, stack⟩ v cell = .ok e₁ := Option.some.inj hs
    have hacc := h.accounted
    rw [List.map_cons] at hacc
    by_cases hv : ∀ id, v ≠ .node id
    · obtain ⟨hnamed, hstack⟩ := write_pass hv hwrite
      refine ⟨⟨fuel, hlen, ?_⟩, ?_⟩
      · simpa [List.filterMap_append, followed?_pass hv] using t.pass hv hnamed hstack
      · simpa [List.filterMap_append, followed?_pass hv, hstack] using hacc.pass (.refl _)
    · push Not at hv
      obtain ⟨id, rfl⟩ := hv
      cases hid : identifier? named id with
      | some ref =>
        obtain ⟨hnamed, hstack⟩ := write_again hid hwrite
        have hnone : followed? ⟨cells, named, (.node id, cell) :: stack⟩ = none := by
          simp [followed?, hid]
        refine ⟨⟨fuel, hlen, ?_⟩, ?_⟩
        · simpa [List.filterMap_append, hnone] using t.again hid hnamed hstack
        · simpa [List.filterMap_append, hnone, hstack] using hacc.again
      | none =>
        obtain ⟨names, hnames, hnamed, hstack⟩ := write_follow hid hwrite
        have hsome : followed? ⟨cells, named, (.node id, cell) :: stack⟩ = some id := by
          simp [followed?, hid]
        refine ⟨⟨fuel, hlen, ?_⟩, ?_⟩
        · simpa [List.filterMap_append, hsome] using
            t.follow hg hnd hmem hshared hid hnames hnamed hstack
        · simpa [List.filterMap_append, hsome, hstack] using hacc.follow hnames (.refl _)

end After

/-- The loop that writes ends. -/
theorem exists_ends (hg : g.IsProper) {ids : List NodeId} (hnd : ids.Nodup)
    (hmem : ∀ m, m ∈ ids ↔ Reaches g rules root m)
    (hshared : ∀ id, ReachedTwice g rules root id → shared id = true) :
    ∃ passes r, Loop.Ends (next g rules shared) (.start root) passes r ∧
      Sparing g rules root ids followed? passes := by
  refine Sparing.exists_ends (fun e => e.stack.map Prod.fst)
    (I := After g rules root shared) (fun m => (hmem m).2)
    (fun h hs => h.next hnd hmem hshared hg hs) (fun {e r} hs hnil => ?_) (fun h => h.nodup)
    (fun h => h.reaches) (fun h hid => h.notMem hnd hmem hshared hid) (fun h => h.accounted)
    (.start g rules root shared)
  simp [next, List.map_eq_nil_iff.1 hnil] at hs

end Emission

/-! ### Both loops -/

/-- Both loops of encoding end, and what they come to is what the bounded loops come to.  `ids` are
the reached nodes; neither loop follows one of them twice, and neither makes more passes than one
and one for each place in the parts of the root and in the selected fields of these nodes. -/
structure BothEnd (g : Graph) (rules : Rules) (root : Value) (ids : List NodeId) : Prop where
  /-- No node is listed twice. -/
  nodup : ids.Nodup
  /-- The listed nodes are the reached ones. -/
  mem_iff : ∀ id, id ∈ ids ↔ Reaches g rules root id
  /-- The loop that counts visits. -/
  counting : ∃ passes r, Loop.Ends (Counting.next g rules) ⟨[root], []⟩ passes r ∧
    visits g rules root = r.map Counting.visits ∧
    Sparing g rules root ids Counting.followed? passes
  /-- The loop that writes, which starts when visits were counted. -/
  writing : ∀ vs, visits g rules root = .ok vs →
    ∃ passes r, Loop.Ends (Emission.next g rules (isShared vs)) (.start root) passes r ∧
      Emission.run g rules (isShared vs) (steps g root) (.start root) = r ∧
      Sparing g rules root ids Emission.followed? passes

/-- Encoding ends in every graph, whatever its nodes refer to and whatever the rules select. -/
theorem encode_ends {g : Graph} (hg : g.IsProper) (rules : Rules) (root : Value) :
    ∃ ids, BothEnd g rules root ids := by
  obtain ⟨ids, hnd, hmem⟩ := exists_reached g rules root
  refine ⟨ids, hnd, hmem, ?_, fun vs hvs => ?_⟩
  · obtain ⟨passes, r, hends, hsparing⟩ := Counting.exists_ends hg fun m => (hmem m).2
    refine ⟨passes, r, hends, ?_, hsparing⟩
    rw [visits, Counting.visitLoop_eq_run, hends.run_eq (hsparing.length_le_steps hg hnd)]
  · obtain ⟨passes, r, hends, hsparing⟩ := Emission.exists_ends hg hnd hmem fun id htwice =>
      (isShared_iff hg hvs id).2 htwice
    refine ⟨passes, r, hends, ?_, hsparing⟩
    rw [Emission.run_eq_run, hends.run_eq (hsparing.length_le_steps hg hnd)]

/-- Encoding a ring ends, with every field selected. -/
theorem ring_ends : ring.IsProper ∧ ∃ ids, BothEnd ring .everything (.node 0) ids :=
  ⟨isProper_ring, encode_ends isProper_ring .everything (.node 0)⟩

end Encoding

end DeclGraph
