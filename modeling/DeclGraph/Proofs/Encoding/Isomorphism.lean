import DeclGraph.Proofs.Encoding.Emission
import DeclGraph.Proofs.Encoding.Layout

/-!
# A document keeps its graph

Main statement: `encode_isomorphic`.  What `Graph.encode` writes, read as a rooted graph, is the
graph that can be seen from the root through selected fields, but for the names of the nodes; and
the document is orderly (`Json.IsOrderly`): a node is written once, where it is met first, with an
identifier just when something refers to it, and the identifiers count up.
-/

namespace DeclGraph

open Encoding

/-! ### Renaming -/

namespace View

variable {ν μ : Type} (f : ν → μ)

mutual

theorem nodes_map : ∀ v : View ν, (v.map f).nodes = v.nodes.map f
  | .scalar _ => by simp [map, nodes]
  | .list items => by rw [map, nodes, nodes, nodes_mapItems items]
  | .node _ => by simp [map, nodes]
  | .foreign _ => by simp [map, nodes]

theorem nodes_mapItems : ∀ items : List (View ν),
    nodesOfItems (mapItems f items) = (nodesOfItems items).map f
  | [] => rfl
  | v :: rest => by
    rw [mapItems, nodesOfItems, nodesOfItems, List.map_append, nodes_map v, nodes_mapItems rest]

end

end View

/-- Where root and fields are renamed, what can be reached is renamed. -/
theorem Rooted.reaches_iff {ν μ : Type} {G : Rooted ν} {H : Rooted μ} {f : ν → μ}
    (hroot : H.root = G.root.map f)
    (hfields : ∀ n, G.Reaches n → H.fields (f n) = (G.fields n).map fun x => (x.1, x.2.map f))
    (p : μ) : H.Reaches p ↔ ∃ n, G.Reaches n ∧ f n = p := by
  constructor
  · -- each step of one graph is taken in the other, forward and backward
    intro h
    induction h with
    | root h =>
      rw [hroot, View.nodes_map] at h
      obtain ⟨n, hn, rfl⟩ := List.mem_map.1 h
      exact ⟨n, .root hn, rfl⟩
    | field _ hx h ih =>
      obtain ⟨m, hm, rfl⟩ := ih
      rw [hfields m hm] at hx
      obtain ⟨y, hy, rfl⟩ := List.mem_map.1 hx
      rw [View.nodes_map] at h
      obtain ⟨n, hn, rfl⟩ := List.mem_map.1 h
      exact ⟨n, .field hm hy hn, rfl⟩
  · rintro ⟨n, hn, rfl⟩
    induction hn with
    | root h => exact .root (by rw [hroot, View.nodes_map]; exact List.mem_map_of_mem h)
    | @field m n x hm hx h ih =>
      refine .field (x := (x.1, x.2.map f)) ih ?_ ?_
      · rw [hfields m hm]; exact List.mem_map.2 ⟨x, hx, rfl⟩
      · rw [View.nodes_map]; exact List.mem_map_of_mem h

namespace Json

/-! ### Orderly documents -/

/-- A document in which every node is written once and where it is met first, and in which the
identifiers are those that are needed, in order. -/
structure IsOrderly (j : Json) : Prop where
  /-- What can be reached in the graph of the document is what is written as a node. -/
  node : ∀ p, j.graph.Reaches p ↔ ∃ w, j.at? p = some w ∧ w.isNode
  /-- Whatever is an edge to a node is the node itself, or a reference that stands behind it. -/
  first : ∀ q w p, j.at? q = some w → w.view j.locate q = .node p →
    p = q ∨ p < q ∧ w.reference?.isSome
  /-- A node has an identifier just when a reference leads to it. -/
  identifier : ∀ p w, j.at? p = some w → w.isNode →
    (w.identifier?.isSome ↔
      ∃ q u r, j.at? q = some u ∧ u.reference? = some r ∧ j.locate r = p)
  /-- In the order of the text the identifiers are the numbers from one on. -/
  identifiers : j.identified.map Prod.fst
    = (List.range j.identified.length).map fun n => Number.digits (n + 1)
  /-- A reference names an identifier that stands in front of it. -/
  reference : ∀ q u r, j.at? q = some u → u.reference? = some r →
    ∃ p w, p < q ∧ j.at? p = some w ∧ w.identifier? = some r

/-- The identifier of a node with its position. -/
def identifierOf? : Mark × Position → Option (String × Position)
  | (.node (some r), p) => some (r, p)
  | _ => none

theorem mark?_of_reference? {w : Json} {r : String} (h : w.reference? = some r) :
    w.mark? = some (.reference r) := by
  rw [mark?, h]

theorem mark?_of_isNode {w : Json} (h : w.isNode) : w.mark? = some (.node w.identifier?) := by
  have href : w.reference? = none := by
    cases w with
    | object entries =>
      rw [isNode, Option.isNone_iff_eq_none] at h
      rw [reference?, h]
    | null | bool | int | float | string | array => rfl
  rw [mark?, href]
  exact if_pos h

theorem of_mark?_node {w : Json} {m : Option String} (h : w.mark? = some (.node m)) :
    w.isNode ∧ w.identifier? = m := by
  unfold mark? at h
  split at h
  · exact absurd h (by simp)
  · split_ifs at h with hw
    exact ⟨hw, by simpa using h⟩

theorem of_mark?_reference {w : Json} {r : String} (h : w.mark? = some (.reference r)) :
    w.reference? = some r := by
  unfold mark? at h
  split at h
  · next r' hr => rw [hr]; simpa using h
  · split_ifs at h
    exact absurd h (by simp)

/-- Only nodes have identifiers. -/
theorem isNode_of_identifier? {w : Json} {r : String} (h : w.identifier? = some r) : w.isNode := by
  cases w with
  | object entries =>
    rw [identifier?] at h
    split at h
    · next href _ => rw [isNode, href]; rfl
    · exact absurd h (by simp)
  | null | bool | int | float | string | array => exact absurd h (by simp [identifier?])

/-- The identifiers of a document can be told from its marks. -/
theorem identified_eq (j : Json) : j.identified = (marks (j.parts [])).filterMap identifierOf? := by
  rw [identified, marks, List.filterMap_filterMap]
  refine List.filterMap_congr fun x _ => ?_
  cases hm : x.2.mark? with
  | none =>
    cases hid : x.2.identifier? with
    | none => rfl
    | some r => rw [mark?_of_isNode (isNode_of_identifier? hid)] at hm; exact absurd hm (by simp)
  | some m =>
    cases m with
    | node m =>
      rw [(of_mark?_node hm).2]
      cases m <;> rfl
    | reference r =>
      cases hid : x.2.identifier? with
      | none => rfl
      | some r => rw [mark?_of_isNode (isNode_of_identifier? hid)] at hm; exact absurd hm (by simp)

end Json

namespace Encoding

/-! ### Identifiers -/

theorem Emission.identifier_injective : Function.Injective Emission.identifier := by
  intro m n h
  have hdigits : Nat.toDigits 10 (m + 1) = Nat.toDigits 10 (n + 1) := String.ofList_injective h
  have : m + 1 = n + 1 := calc
    m + 1 = Nat.ofDigitChars 10 (Nat.toDigits 10 (m + 1)) 0 := Nat.ofDigitChars_ten_toDigits.symm
    _ = Nat.ofDigitChars 10 (Nat.toDigits 10 (n + 1)) 0 := by rw [hdigits]
    _ = n + 1 := Nat.ofDigitChars_ten_toDigits
  exact Nat.succ.inj this

theorem identifier?_getElem {named : List NodeId} (hnd : named.Nodup) {i : Nat}
    (hi : i < named.length) :
    Emission.identifier? named named[i] = some (Emission.identifier i) := by
  have : named.idxOf? named[i] = some i :=
    List.idxOf?_eq_some_iff.2 ⟨hi, by simp, fun k hk h =>
      absurd ((List.Nodup.getElem_inj_iff hnd).1 (by simpa using h)) (Nat.ne_of_lt hk)⟩
  rw [Emission.identifier?, this]; rfl

/-- Nodes that are named in order have the identifiers in order. -/
theorem filterMap_identifier? {named : List NodeId} (hnd : named.Nodup) :
    named.filterMap (Emission.identifier? named)
      = (List.range named.length).map Emission.identifier := by
  have hmap : named.map (Emission.identifier? named)
      = (List.range named.length).map fun i => some (Emission.identifier i) := by
    refine List.ext_getElem (by simp) fun i hi _ => ?_
    rw [List.getElem_map, List.getElem_map, List.getElem_range,
      identifier?_getElem hnd (by simpa using hi)]
  have := congrArg (List.filterMap fun x => x) hmap
  rw [List.filterMap_map, List.filterMap_map] at this
  rw [show named.filterMap (Emission.identifier? named) = _ from this]
  exact congrFun List.filterMap_eq_map _

namespace Record

variable {shared : NodeId → Bool}

/-- The identifiers that show of a part of a record are those of its nodes. -/
theorem map_fst_identifiers (F S : Record) :
    ((S.map fun x => (F.mark shared x.1, x.2)).filterMap Json.identifierOf?).map Prod.fst
      = S.nodes.filterMap (Emission.identifier? (F.named shared)) := by
  induction S with
  | nil => rfl
  | cons x S ih =>
    obtain ⟨e, p⟩ := x
    rw [List.map_cons, List.filterMap_cons]
    cases e with
    | reference id => exact ih
    | spot x =>
      cases x with
      | map a => exact ih
      | node id =>
        rw [nodes_cons_node, List.filterMap_cons, ← ih, mark]
        cases Emission.identifier? (F.named shared) id <;> rfl

/-- Only named nodes have identifiers. -/
theorem filterMap_nodes (F : Record) :
    F.nodes.filterMap (Emission.identifier? (F.named shared))
      = (F.named shared).filterMap (Emission.identifier? (F.named shared)) := by
  conv_rhs => rw [named, List.filterMap_filter]
  refine List.filterMap_congr fun id _ => ?_
  split
  · rfl
  · next hs =>
    refine Option.map_eq_none_iff.2 (List.idxOf?_eq_none_iff.2 fun hmem => hs ?_)
    exact (List.mem_filter.1 hmem).2

end Record

/-! ### The document of a record -/

/-- `F` records how a root is written as the document `j`. -/
structure Recorded (g : Graph) (rules : Rules) (root : Value) (shared : NodeId → Bool)
    (F : Record) (j : Json) : Prop where
  /-- No node of the graph looks like a reference. -/
  proper : g.IsProper
  /-- The shared nodes are those that are reached more than once. -/
  twice : ∀ id, shared id = true ↔ ReachedTwice g rules root id
  /-- The document is written of the root. -/
  written : Written TextKeys g rules shared [] [(.root, root)] [j] F
  /-- Every node is written once. -/
  nodup : F.nodes.Nodup
  /-- The reached nodes are written. -/
  reached : ∀ id, id ∈ F.nodes ↔ Reaches g rules root id

namespace Recorded

variable {g : Graph} {rules : Rules} {root : Value} {shared : NodeId → Bool} {F : Record}
  {j : Json}

theorem marks_eq (h : Recorded g rules root shared F j) :
    Json.marks (j.parts []) = F.map fun x => (F.mark shared x.1, x.2) := by
  obtain ⟨T, hT, hmarks⟩ := h.written.marks h.proper List.prefix_rfl
  rw [List.nil_append] at hT
  subst hT
  rw [← hmarks, List.map_singleton, Json.partsAt_cons, Json.partsAt_nil, List.append_nil]
  rfl

theorem exists_mark (h : Recorded g rules root shared F j) {e : Entry} {p : Json.Position}
    (he : (e, p) ∈ F) : ∃ w, j.at? p = some w ∧ w.mark? = some (F.mark shared e) := by
  have hmem : (F.mark shared e, p) ∈ Json.marks (j.parts []) := by
    rw [h.marks_eq]; exact List.mem_map.2 ⟨(e, p), he, rfl⟩
  obtain ⟨w, hw, hm⟩ := Json.mem_marks.1 hmem
  exact ⟨w, Json.mem_parts_nil_iff.1 hw, hm⟩

/-- What shows at a position is kept. -/
theorem exists_entry (h : Recorded g rules root shared F j) {w : Json} {m : Json.Mark}
    {p : Json.Position} (hw : j.at? p = some w) (hm : w.mark? = some m) :
    ∃ e, (e, p) ∈ F ∧ F.mark shared e = m := by
  have hmem := Json.mem_marks.2 ⟨w, Json.mem_parts_nil_iff.2 hw, hm⟩
  rw [h.marks_eq] at hmem
  obtain ⟨⟨e, q⟩, he, heq⟩ := List.mem_map.1 hmem
  obtain ⟨hmark, rfl⟩ := Prod.mk.inj heq
  exact ⟨e, he, hmark⟩

theorem sorted (h : Recorded g rules root shared F j) : (F.map Prod.snd).Pairwise (· < ·) := by
  have := (Json.sorted_parts [] j).sublist (Json.sublist_map_snd_marks _)
  rwa [h.marks_eq, List.map_map] at this

theorem nodup_named (h : Recorded g rules root shared F j) : (F.named shared).Nodup :=
  h.nodup.filter _

theorem map_fst_identified (h : Recorded g rules root shared F j) :
    j.identified.map Prod.fst = (List.range (F.named shared).length).map Emission.identifier := by
  rw [Json.identified_eq, h.marks_eq, Record.map_fst_identifiers, Record.filterMap_nodes,
    filterMap_identifier? h.nodup_named]

/-- An identifier leads to the node that has it. -/
theorem locate_eq (h : Recorded g rules root shared F j) {id : NodeId} {p : Json.Position}
    {r : String} (hp : (Entry.spot (.node id), p) ∈ F)
    (hr : Emission.identifier? (F.named shared) id = some r) : j.locate r = p := by
  have hkeys : (Entries.keys j.identified).Nodup := by
    rw [Entries.keys, h.map_fst_identified]
    exact List.nodup_range.map Emission.identifier_injective
  have hmem : (r, p) ∈ j.identified := by
    rw [Json.identified_eq, h.marks_eq]
    refine List.mem_filterMap.2 ⟨(.node (some r), p), List.mem_map.2 ⟨_, hp, ?_⟩, rfl⟩
    rw [Record.mark, hr]
  rw [Json.locate, Entries.get?_of_mem hkeys hmem]; rfl

theorem layout (h : Recorded g rules root shared F j) : Layout shared F j.locate := by
  refine ⟨h.nodup, fun id r hr => ?_⟩
  obtain ⟨p, hp⟩ := Record.mem_nodes.1 (List.mem_filter.1 (Emission.mem_of_identifier? hr)).1
  rw [h.locate_eq hp hr, Record.place_of_mem h.nodup hp]

/-- All that is kept is drawn. -/
theorem drawn (h : Recorded g rules root shared F j) {x : Spot} {p : Json.Position}
    (hx : (Entry.spot x, p) ∈ F) :
    Drawn g rules root shared F j.locate (j.parts []) x p := by
  refine h.written.drawn h.proper List.prefix_rfl h.layout ?_ ?_ (by simp) x p hx
  · rintro _ hroot
    obtain rfl := List.mem_singleton.1 hroot
    exact ⟨rfl, rfl, fun n hn => .root hn⟩
  · rw [List.map_singleton, Json.partsAt_cons, Json.partsAt_nil, List.append_nil]
    exact fun y hy => hy

/-- What is kept is what can be reached. -/
theorem exists_mem_iff_reaches (h : Recorded g rules root shared F j) (x : Spot) :
    (∃ p, (Entry.spot x, p) ∈ F) ↔ (g.rooted rules root).Reaches x := by
  refine ⟨fun ⟨p, hp⟩ => (h.drawn hp).reaches, fun hx => ?_⟩
  induction hx with
  | root hn => exact h.written.nodes_written _ List.mem_cons_self _ hn
  | field _ hy hn ih =>
    obtain ⟨p, hp⟩ := ih
    exact (h.drawn hp).closed _ hy _ hn

theorem graph_root (h : Recorded g rules root shared F j) :
    j.graph.root = (g.rooted rules root).root.map (F.rename shared) := by
  have hviews := h.written.views h.proper List.prefix_rfl h.layout fun x hx => by
    obtain rfl := List.mem_singleton.1 hx
    rfl
  exact (List.cons.inj hviews).1

theorem graph_fields (h : Recorded g rules root shared F j) {x : Spot}
    (hx : (g.rooted rules root).Reaches x) :
    j.graph.fields (F.rename shared x) = ((g.rooted rules root).fields x).map fun y =>
      (y.1, y.2.map (F.rename shared)) := by
  obtain ⟨p, hp⟩ := (h.exists_mem_iff_reaches x).2 hx
  obtain ⟨entries, hmem, hfields⟩ := (h.drawn hp).object
  show j.fieldsAt (F.rename shared x) = _
  rw [(h.drawn hp).position, Json.fieldsAt, Json.mem_parts_nil_iff.1 hmem]
  exact hfields

/-- The document is the graph with its nodes renamed to their positions. -/
theorem isIsomorphism (h : Recorded g rules root shared F j) :
    (g.rooted rules root).IsIsomorphism j.graph (F.rename shared) where
  root := h.graph_root
  fields _ hx := h.graph_fields hx
  surjective p hp := (Rooted.reaches_iff h.graph_root (fun _ hx => h.graph_fields hx) p).1 hp
  injective x y hx hy heq := by
    obtain ⟨p, hp⟩ := (h.exists_mem_iff_reaches x).2 hx
    obtain ⟨q, hq⟩ := (h.exists_mem_iff_reaches y).2 hy
    rw [(h.drawn hp).position, (h.drawn hq).position] at heq
    subst heq
    -- no position is kept twice
    have hnd : (F.map Prod.snd).Nodup := by
      refine List.nodup_iff_pairwise_ne.2 (h.sorted.imp ?_)
      rintro a _ hlt rfl
      exact List.lt_irrefl a hlt
    have := List.inj_on_of_nodup_map hnd hp hq rfl
    exact Entry.spot.inj (Prod.mk.inj this).1

/-- A reference is kept behind the node that it names. -/
theorem exists_of_reference (h : Recorded g rules root shared F j) {q : Json.Position} {u : Json}
    {r : String} (hu : j.at? q = some u) (hr : u.reference? = some r) :
    ∃ id p, (Entry.spot (.node id), p) ∈ F ∧ p < q ∧
      Emission.identifier? (F.named shared) id = some r := by
  obtain ⟨e, he, hmark⟩ := h.exists_entry hu (Json.mark?_of_reference? hr)
  obtain ⟨id, rfl⟩ : ∃ id, e = .reference id := by
    cases e with
    | reference id => exact ⟨id, rfl⟩
    | spot x => cases x <;> exact absurd hmark (by simp [Record.mark])
  -- what the record keeps in front of the reference stands in front of it in the document
  obtain ⟨A, B, hF⟩ := List.append_of_mem he
  have hbackward : F.Backward shared :=
    h.written.backward fun A id p B heq => absurd heq (by simp)
  have hid := hbackward A id q B hF
  obtain ⟨p, hp⟩ := Record.mem_nodes.1 (List.mem_filter.1 hid).1
  refine ⟨id, p, by rw [hF]; exact List.mem_append_left _ hp, ?_, ?_⟩
  · have hsorted := h.sorted
    rw [hF, List.map_append, List.pairwise_append] at hsorted
    exact hsorted.2.2 p (List.mem_map.2 ⟨_, hp, rfl⟩) q List.mem_cons_self
  · have hmem : id ∈ F.named shared := by
      rw [hF, Record.named_append]; exact List.mem_append_left _ hid
    obtain ⟨i, hi, rfl⟩ := List.mem_iff_getElem.1 hmem
    have hsome := identifier?_getElem h.nodup_named hi
    rw [Record.mark, hsome, Option.getD_some] at hmark
    rw [hsome, Json.Mark.reference.inj hmark]

/-- A shared node is referred to. -/
theorem exists_reference (h : Recorded g rules root shared F j) {id : NodeId}
    (hid : id ∈ F.named shared) : ∃ q, (Entry.reference id, q) ∈ F := by
  obtain ⟨T, hT, hcount⟩ := h.written.count_references
  rw [List.nil_append] at hT
  subst hT
  have htwice := (h.twice id).1 (List.mem_filter.1 hid).2
  rw [reachedTwice_iff h.nodup h.reached] at htwice
  have heq := hcount id
  have hone : F.nodes.count id ≤ 1 := List.nodup_iff_count_le_one.1 h.nodup id
  simp only [List.map_singleton, List.flatMap_singleton] at heq
  rw [referencesOf, List.count_append] at htwice
  have hpos : 0 < F.referenced.count id := by omega
  exact Record.mem_referenced.1 (List.count_pos_iff.1 hpos)

theorem isOrderly (h : Recorded g rules root shared F j) : j.IsOrderly where
  node p := by
    rw [Rooted.reaches_iff h.graph_root (fun _ hx => h.graph_fields hx)]
    constructor
    · rintro ⟨x, hx, rfl⟩
      obtain ⟨p, hp⟩ := (h.exists_mem_iff_reaches x).2 hx
      obtain ⟨w, hw, hm⟩ := h.exists_mark hp
      rw [(h.drawn hp).position]
      refine ⟨w, hw, ?_⟩
      cases x <;> exact (Json.of_mark?_node hm).1
    · rintro ⟨w, hw, hnode⟩
      obtain ⟨e, he, hmark⟩ := h.exists_entry hw (Json.mark?_of_isNode hnode)
      cases e with
      | spot x => exact ⟨x, (h.drawn he).reaches, (h.drawn he).position⟩
      | reference id => exact absurd hmark (by simp [Record.mark])
  first q w p hw hview := by
    cases w with
    | object entries =>
      rw [Json.view] at hview
      cases hr : (Json.object entries).reference? with
      | none => rw [hr] at hview; exact .inl (View.node.inj hview).symm
      | some r =>
        rw [hr] at hview
        obtain ⟨id, p', hp', hlt, hid⟩ := h.exists_of_reference hw hr
        obtain rfl : j.locate r = p := View.node.inj hview
        exact .inr ⟨by rwa [h.locate_eq hp' hid], rfl⟩
    | null | bool | int | float | string | array => exact absurd hview (by simp [Json.view])
  identifier p w hw hnode := by
    constructor
    · intro hsome
      obtain ⟨r, hr⟩ := Option.isSome_iff_exists.1 hsome
      obtain ⟨e, he, hmark⟩ := h.exists_entry hw (Json.mark?_of_isNode hnode)
      rw [hr] at hmark
      obtain ⟨id, rfl⟩ : ∃ id, e = .spot (.node id) := by
        cases e with
        | reference id => exact absurd hmark (by simp [Record.mark])
        | spot x =>
          cases x with
          | map a => exact absurd hmark (by simp [Record.mark])
          | node id => exact ⟨id, rfl⟩
      -- an identifier is given to shared nodes, and those are referred to
      have hid : Emission.identifier? (F.named shared) id = some r := Json.Mark.node.inj hmark
      obtain ⟨q, hq⟩ := h.exists_reference (Emission.mem_of_identifier? hid)
      obtain ⟨u, hu, hm⟩ := h.exists_mark hq
      rw [Record.mark, hid, Option.getD_some] at hm
      exact ⟨q, u, r, hu, Json.of_mark?_reference hm, h.locate_eq he hid⟩
    · rintro ⟨q, u, r, hu, hr, hlocate⟩
      obtain ⟨id, p', hp', -, hid⟩ := h.exists_of_reference hu hr
      obtain rfl : p' = p := (h.locate_eq hp' hid).symm.trans hlocate
      obtain ⟨w', hw', hm⟩ := h.exists_mark hp'
      obtain rfl : w' = w := Option.some.inj (hw'.symm.trans hw)
      rw [(Json.of_mark?_node hm).2, hid]; rfl
  identifiers := by
    have hlen := congrArg List.length h.map_fst_identified
    rw [List.length_map, List.length_map, List.length_range] at hlen
    rw [h.map_fst_identified, hlen]
    rfl
  reference q u r hu hr := by
    obtain ⟨id, p, hp, hlt, hid⟩ := h.exists_of_reference hu hr
    obtain ⟨w, hw, hm⟩ := h.exists_mark hp
    exact ⟨p, w, hlt, hw, (Json.of_mark?_node hm).2.trans hid⟩

end Recorded

theorem exists_recorded {g : Graph} {rules : Rules} {root : Value} {j : Json} (hg : g.IsProper)
    (hkeys : g.AllMaps TextKeys root) (h : g.encode rules root = .ok j) :
    ∃ shared F, Recorded g rules root shared F j := by
  obtain ⟨shared, F, htwice, hwritten, hnd, hmem⟩ :=
    encode_written (fun _ => TextKeys.displayedApart) hg hkeys h
  exact ⟨shared, F, hg, htwice, hwritten, hnd, hmem⟩

/-- Encoding keeps the graph: the document, read as a rooted graph, is isomorphic to what can be
seen from the root through selected fields, and it is orderly. -/
theorem encode_isomorphic {g : Graph} {rules : Rules} {root : Value} {j : Json} (hg : g.IsProper)
    (hkeys : g.AllMaps TextKeys root) (h : g.encode rules root = .ok j) :
    (∃ f, (g.rooted rules root).IsIsomorphism j.graph f) ∧ j.IsOrderly := by
  obtain ⟨shared, F, hF⟩ := exists_recorded hg hkeys h
  exact ⟨⟨_, hF.isIsomorphism⟩, hF.isOrderly⟩

/-- The document of a ring is the ring. -/
theorem ring_isomorphic :
    ring.IsProper ∧ ring.AllMaps TextKeys (.node 0) ∧
      ring.encode .everything (.node 0) = .ok ringDocument ∧
      (∃ f, (ring.rooted .everything (.node 0)).IsIsomorphism ringDocument.graph f) ∧
      ringDocument.IsOrderly :=
  ⟨isProper_ring, allMaps_ring, encode_ring,
    encode_isomorphic isProper_ring allMaps_ring encode_ring⟩

end Encoding

end DeclGraph
