import DeclGraph.Proofs.Encoding.Emission
import DeclGraph.Proofs.Encoding.Marks

/-!
# The recursive encoder

`Encoding.writeValues` writes values depth first by plain recursion: it threads the identifiers
given so far, writes a shared node with the next one where it is met first and refers to it
wherever it is met again, and writes the other nodes without.  `Encoding.writeRecursively` does so
from a root, where the shared nodes are those that are reached more than once.

The main statement is `encode_eq_writeRecursively`: the stack and the cells of `Graph.encode` give
the same document, whenever the recursion may go as far as there are places to visit.
-/

namespace DeclGraph

namespace Encoding

/-- The identifiers given so far: how many there are, and which node has which. -/
structure Numbering where
  /-- How many identifiers have been given. -/
  count : Nat
  /-- The number of a node, if it has one. -/
  number? : NodeId → Option Nat

namespace Numbering

/-- No identifier has been given. -/
def none : Numbering := ⟨0, fun _ => .none⟩

/-- The next identifier is given to a node. -/
def assign (n : Numbering) (id : NodeId) : Numbering :=
  ⟨n.count + 1, fun m => if m = id then some (n.count + 1) else n.number? m⟩

end Numbering

/-- Writes values one after another, each depth first; nothing comes of a value that cannot be
written, and `fuel` bounds the depth. -/
def writeValues (g : Graph) (rules : Rules) (shared : NodeId → Bool) :
    Nat → List Value → Numbering → Option (List Json × Numbering)
  | 0, _, _ => none
  | _ + 1, [], n => some ([], n)
  | fuel + 1, v :: rest, n => do
    let (w, n) ← (match v with
      | .scalar c => some (Emission.scalarJson c, n)
      | .list items => do
        let (ws, n) ← writeValues g rules shared fuel items n
        return (.array ws, n)
      | .tuple items => do
        let (ws, n) ← writeValues g rules shared fuel items n
        return (.array ws, n)
      | .dict entries => do
        let (ws, n) ← writeValues g rules shared fuel (entries.map Prod.snd) n
        return (.object ((entries.map fun e => e.1.display).zip ws), n)
      | .foreign _ => none
      | .node id =>
        match n.number? id with
        | some k => some (.object [(refKey, .string (Number.digits k))], n)
        | none => do
          let names ← (rules.fieldsFor (g.node id).schema).toOption
          let fields := names.map (g.node id).get
          if shared id then
            let (ws, m) ← writeValues g rules shared fuel fields (n.assign id)
            return (.object ((idKey, .string (Number.digits (n.count + 1))) :: names.zip ws), m)
          else
            let (ws, n) ← writeValues g rules shared fuel fields n
            return (.object (names.zip ws), n) : Option (Json × Numbering))
    let (ws, n) ← writeValues g rules shared fuel rest n
    return (w :: ws, n)

open Classical in
/-- Writes what can be reached from a root by plain recursion. -/
noncomputable def writeRecursively (g : Graph) (rules : Rules) (root : Value) (fuel : Nat) :
    Option Json := do
  let shared (id : NodeId) : Bool := decide (ReachedTwice g rules root id)
  let (ws, _) ← writeValues g rules shared fuel [root] .none
  ws.head?

/-! ### Numbers and names -/

/-- The identifiers of nodes that are named in order. -/
def Numbering.ofNamed (named : List NodeId) : Numbering :=
  ⟨named.length, fun id => (named.idxOf? id).map (· + 1)⟩

theorem Numbering.count_ofNamed (named : List NodeId) : (ofNamed named).count = named.length := rfl

theorem Numbering.number?_ofNamed (named : List NodeId) (id : NodeId) :
    (ofNamed named).number? id = (named.idxOf? id).map (· + 1) := rfl

/-- A node that is named next gets the next number. -/
theorem Numbering.ofNamed_append {named : List NodeId} {id : NodeId} (h : id ∉ named) :
    ofNamed (named ++ [id]) = (ofNamed named).assign id := by
  unfold ofNamed assign
  congr 1
  · rw [List.length_append, List.length_singleton]
  · funext m
    rw [idxOf?_append]
    by_cases hm : m = id
    · subst hm
      rw [List.idxOf?_eq_none_iff.2 h, if_pos rfl, List.idxOf?_cons]
      simp
    · rw [if_neg hm, List.idxOf?_cons]
      simp [Ne.symm hm]

theorem sum_size_cons (s : Site) (v : Value) (items : List (Site × Value)) :
    ((((s, v) :: items).map Prod.snd).map Value.size).sum
      = 1 + ((parts v).map Value.size).sum + ((items.map Prod.snd).map Value.size).sum := by
  rw [List.map_cons, List.map_cons, List.sum_cons, Value.size_eq_parts]

/-- What is written is what recursion writes, when it may go as far as there are places in the
values and in the fields of the nodes. -/
theorem Written.writeValues_eq {P : List Scalar → Prop} {g : Graph} {rules : Rules}
    {shared : NodeId → Bool} {S S' : Record} {items : List (Site × Value)} {ws : List Json}
    (hg : g.IsProper) (h : Written P g rules shared S items ws S') :
    ∃ T, S' = S ++ T ∧ ∀ fuel, ((items.map Prod.snd).map Value.size).sum
        + (T.nodes.map fun id => weight (g.node id)).sum < fuel →
      writeValues g rules shared fuel (items.map Prod.snd) (.ofNamed (S.named shared))
        = some (ws, .ofNamed (S'.named shared)) := by
  induction h using Written.sequence_induction with
  | nil S =>
    refine ⟨[], (List.append_nil S).symm, fun fuel hfuel => ?_⟩
    obtain ⟨fuel, rfl⟩ := Nat.exists_eq_add_of_lt hfuel
    rfl
  | @scalar S S' s c items _ _ ih =>
    obtain ⟨T, hT, ih⟩ := ih
    refine ⟨T, hT, fun fuel hfuel => ?_⟩
    have hsize := sum_size_cons s (.scalar c) items
    obtain ⟨fuel, rfl⟩ : ∃ n, fuel = n + 1 := ⟨fuel - 1, by omega⟩
    rw [List.map_cons, writeValues]
    simp [ih fuel (by omega)]
  | @sequence S M S' s v vs items us _ hv _ _ ihp ih =>
    obtain ⟨T₁, hT₁, ihp⟩ := ihp
    obtain ⟨T₂, hT₂, ih⟩ := ih
    rw [s.map_snd_parts] at ihp
    refine ⟨T₁ ++ T₂, by rw [hT₂, hT₁, List.append_assoc], fun fuel hfuel => ?_⟩
    have hsize := sum_size_cons s v items
    rw [Value.parts_of_items? hv] at hsize
    rw [Record.nodes_append, List.map_append, List.sum_append] at hfuel
    obtain ⟨fuel, rfl⟩ : ∃ n, fuel = n + 1 := ⟨fuel - 1, by omega⟩
    have hparts := ihp fuel (by omega)
    have hrest := ih fuel (by omega)
    rcases Value.eq_of_items? hv with rfl | rfl <;>
      rw [List.map_cons, writeValues] <;> simp [hparts, hrest]
  | @dict S M S' s es items us _ _ _ _ ihp ih =>
    obtain ⟨T₁, hT₁, ihp⟩ := ihp
    obtain ⟨T₂, hT₂, ih⟩ := ih
    rw [s.map_snd_parts, Record.named_append, Record.named_map, List.append_nil] at ihp
    refine ⟨(.spot (.map s.address), s.position) :: (T₁ ++ T₂), by simp [hT₂, hT₁],
      fun fuel hfuel => ?_⟩
    have hsize : _ = 1 + ((es.map Prod.snd).map Value.size).sum + _ :=
      sum_size_cons s (.dict es) items
    rw [Record.nodes_cons_map, Record.nodes_append, List.map_append, List.sum_append] at hfuel
    obtain ⟨fuel, rfl⟩ : ∃ n, fuel = n + 1 := ⟨fuel - 1, by omega⟩
    rw [List.map_cons, writeValues]
    simp [ihp fuel (by omega), ih fuel (by omega)]
  | @again S S' s id r items _ _ _ hr _ ih =>
    obtain ⟨T, hT, ih⟩ := ih
    rw [Record.named_append, Record.named_reference, List.append_nil] at ih
    refine ⟨(.reference id, s.position) :: T, by simp [hT], fun fuel hfuel => ?_⟩
    have hsize := sum_size_cons s (.node id) items
    rw [Record.nodes_cons_reference] at hfuel
    obtain ⟨fuel, rfl⟩ : ∃ n, fuel = n + 1 := ⟨fuel - 1, by omega⟩
    obtain ⟨k, hk, rfl⟩ := Option.map_eq_some_iff.1 hr
    have hnumber : (Numbering.ofNamed (S.named shared)).number? id = some (k + 1) := by
      rw [Numbering.number?_ofNamed, hk]; rfl
    rw [List.map_cons, writeValues]
    simp [hnumber, ih fuel (by omega), Emission.identifier]
  | @first S M S' s id names items us _ hid hn _ _ ihp ih =>
    obtain ⟨T₁, hT₁, ihp⟩ := ihp
    obtain ⟨T₂, hT₂, ih⟩ := ih
    rw [map_snd_fieldSites, Record.named_append, Record.named_node] at ihp
    refine ⟨(.spot (.node id), s.position) :: (T₁ ++ T₂), by simp [hT₂, hT₁],
      fun fuel hfuel => ?_⟩
    have hsize := sum_size_cons s (.node id) items
    -- following a node trades its weight for the places in its fields
    have hfields := sum_size_selected_le (hg.node id) hn
    simp only [Record.nodes_cons_node, Record.nodes_append, List.map_cons, List.sum_cons,
      List.map_append, List.sum_append] at hfuel hsize
    obtain ⟨fuel, rfl⟩ : ∃ n, fuel = n + 1 := ⟨fuel - 1, by omega⟩
    have hnot : id ∉ S.named shared := fun h => hid (List.mem_filter.1 h).1
    have hnumber : (Numbering.ofNamed (S.named shared)).number? id = Option.none := by
      rw [Numbering.number?_ofNamed, List.idxOf?_eq_none_iff.2 hnot]; rfl
    rw [List.map_cons, writeValues, Record.leading]
    -- only a shared node takes a number, and only its object begins with one
    cases hs : shared id with
    | true =>
      rw [if_pos hs, Numbering.ofNamed_append hnot] at ihp
      simp [hn, hnumber, ihp fuel (by omega), ih fuel (by omega), Except.toOption,
        Emission.identifier, Numbering.count_ofNamed]
    | false =>
      rw [hs, if_neg (by simp), List.append_nil] at ihp
      simp [hn, hnumber, ihp fuel (by omega), ih fuel (by omega), Except.toOption]

/-- The document that `Graph.encode` builds with a stack and with cells is the one that plain
recursion writes: the same keys in the same order, and the same numbers.  The recursion may go as
far as there are places to visit. -/
theorem encode_eq_writeRecursively {g : Graph} {rules : Rules} {root : Value} {j : Json}
    (hg : g.IsProper) (hmaps : g.AllMaps DisplayedApart root)
    (h : g.encode rules root = .ok j) {fuel : Nat} (hfuel : steps g root ≤ fuel) :
    writeRecursively g rules root fuel = some j := by
  obtain ⟨shared, S, hshared, hwritten, hnd, -⟩ := encode_written (fun _ h => h) hg hmaps h
  have heq : (fun id => @decide (ReachedTwice g rules root id) (Classical.propDecidable _))
      = shared := by
    funext id
    rw [Bool.eq_iff_iff, hshared, @decide_eq_true_iff]
  obtain ⟨T, hT, hvalues⟩ := hwritten.writeValues_eq hg
  rw [List.nil_append] at hT
  subst hT
  -- the written nodes are different, so the recursion goes no deeper than the walk
  have hweight := sum_weight_le g hnd
  have hlt :
      ([root].map Value.size).sum + (S.nodes.map fun id => weight (g.node id)).sum < fuel := by
    rw [List.map_singleton, List.sum_singleton]
    rw [steps] at hfuel
    omega
  have hrun : writeValues g rules shared fuel [root] .none = _ := hvalues fuel hlt
  rw [writeRecursively, heq, hrun]
  rfl

/-- Plain recursion writes the ring in the same way. -/
theorem writeRecursively_ring :
    ring.IsProper ∧ ring.AllMaps DisplayedApart (.node 0) ∧
      ring.encode .everything (.node 0) = .ok ringDocument ∧ steps ring (.node 0) ≤ 10 ∧
      writeRecursively ring .everything (.node 0) 10 = some ringDocument := by
  have hmaps := allMaps_ring.mono fun _ => TextKeys.displayedApart
  have hsteps : steps ring (.node 0) ≤ 10 := by decide
  exact ⟨isProper_ring, hmaps, encode_ring, hsteps,
    encode_eq_writeRecursively isProper_ring hmaps encode_ring hsteps⟩

end Encoding

end DeclGraph
