import DeclGraph.Proofs.Encoding.Drawing
import DeclGraph.Proofs.Encoding.Failing
import DeclGraph.Proofs.Encoding.Isomorphism

/-!
# References lead to nodes

Main statement: `encode_resolves`.  Where the keys of every map that encoding comes across have
different texts, no entry is lost, and every reference names one object, which is written for the
node that the reference stands for.  The keys may be scalars of any kind.  Where two keys of a map
have one text it may be otherwise: `encode_collision` shows a document that refers to a node which
it does not contain.
-/

namespace DeclGraph

namespace Encoding

/-! ### Identifiers -/

/-- A node keeps its identifier when others get theirs. -/
theorem identifier?_of_prefix {named named' : List NodeId} (h : named <+: named') {id : NodeId}
    {r : String} (hid : Emission.identifier? named id = some r) :
    Emission.identifier? named' id = some r := by
  obtain ⟨rest, rfl⟩ := h
  obtain ⟨k, hk, rfl⟩ := Option.map_eq_some_iff.1 hid
  rw [Emission.identifier?, idxOf?_append, hk]; rfl

/-- Different nodes have different identifiers. -/
theorem identifier?_injective {named : List NodeId} {id id' : NodeId} {r : String}
    (h : Emission.identifier? named id = some r) (h' : Emission.identifier? named id' = some r) :
    id = id' := by
  obtain ⟨k, hk, hr⟩ := Option.map_eq_some_iff.1 h
  obtain ⟨k', hk', hr'⟩ := Option.map_eq_some_iff.1 h'
  obtain rfl : k = k' := Emission.identifier_injective (hr.trans hr'.symm)
  obtain ⟨hlt, hid, -⟩ := List.idxOf?_eq_some_iff.1 hk
  obtain ⟨hlt', hid', -⟩ := List.idxOf?_eq_some_iff.1 hk'
  exact hid.symm.trans hid'

namespace Drawing

variable {g : Graph} {rules : Rules} {root : Value} {shared : NodeId → Bool}
  {S S' : List NodeId} {vs : List Value} {us : List Sheet}

/-! ### The nodes that are written -/

/-- The nodes that are written come behind those that have been written. -/
theorem grows (h : Drawing g rules shared S vs us S') : S <+: S' := by
  induction h with
  | nil => exact List.prefix_refl _
  | scalar _ ih => exact ih
  | sequence _ _ _ ihp ih => exact ihp.trans ih
  | map _ _ ihp ih => exact ihp.trans ih
  | again _ _ ih => exact ih
  | first _ _ _ _ ihp ih => exact ((List.prefix_append _ _).trans ihp).trans ih

/-- No node is written twice. -/
theorem nodup (h : Drawing g rules shared S vs us S') (hS : S.Nodup) : S'.Nodup := by
  induction h with
  | nil => exact hS
  | scalar _ ih => exact ih hS
  | sequence _ _ _ ihp ih => exact ih (ihp hS)
  | map _ _ ihp ih => exact ih (ihp hS)
  | again _ _ ih => exact ih hS
  | first unwritten _ _ _ ihp ih =>
    refine ih (ihp ?_)
    rw [← List.concat_eq_append]
    exact hS.concat unwritten

/-- A sheet has been drawn, on the way to the written nodes `S'`, of a value that is met from one of
the values `vs`. -/
def DrawnFrom (g : Graph) (rules : Rules) (shared : NodeId → Bool) (vs : List Value)
    (S' : List NodeId) (w : Sheet) : Prop :=
  ∃ S₀ v M, Drawing g rules shared S₀ [v] [w] M ∧ M <+: S' ∧ ∃ u ∈ vs, Meets g rules u v

namespace DrawnFrom

variable {v : Value} {w : Sheet} {M : List NodeId}

/-- A sheet of the first value. -/
theorem head (h : Drawing g rules shared S [v] [w] M) (hM : M <+: S') :
    DrawnFrom g rules shared (v :: vs) S' w :=
  ⟨S, v, M, h, hM, v, List.mem_cons_self, .root⟩

/-- A sheet of what stands behind the first value. -/
theorem behind {items : List Value} (h : DrawnFrom g rules shared items M w)
    (hitems : ∀ item ∈ items, Meets g rules v item) (hM : M <+: S') :
    DrawnFrom g rules shared (v :: vs) S' w := by
  obtain ⟨S₀, part, M₀, hd, hM₀, item, hitem, hmet⟩ := h
  exact ⟨S₀, part, M₀, hd, hM₀.trans hM, v, List.mem_cons_self, (hitems item hitem).trans hmet⟩

/-- A sheet of a later value. -/
theorem tail (h : DrawnFrom g rules shared vs S' w) : DrawnFrom g rules shared (v :: vs) S' w := by
  obtain ⟨S₀, part, M₀, hd, hM₀, hmet⟩ := h
  exact ⟨S₀, part, M₀, hd, hM₀, List.exists_mem_cons_of_exists hmet⟩

end DrawnFrom

/-- Whatever stands in the sheets has been drawn of a value that is met. -/
theorem of_mem_parts (h : Drawing g rules shared S vs us S') {w : Sheet}
    (hw : w ∈ us.flatMap Sheet.parts) : DrawnFrom g rules shared vs S' w := by
  induction h with
  | nil => exact absurd hw (by simp)
  | scalar rest ih =>
    rw [List.flatMap_cons, Sheet.parts_eq] at hw
    rcases List.mem_cons.1 hw with rfl | hw
    · exact .head (.scalar (.nil _)) rest.grows
    · exact (ih hw).tail
  | sequence hv parts rest ihp ih =>
    rw [List.flatMap_cons, Sheet.parts_eq] at hw
    rcases List.mem_append.1 hw with hw | hw
    · rcases List.mem_cons.1 hw with rfl | hw
      · exact .head (.sequence hv parts (.nil _)) rest.grows
      · refine (ihp hw).behind (fun item hitem => .part .root ?_) rest.grows
        rwa [Value.parts_of_items? hv]
    · exact (ih hw).tail
  | map parts rest ihp ih =>
    rw [List.flatMap_cons, Sheet.parts_eq] at hw
    rcases List.mem_append.1 hw with hw | hw
    · rcases List.mem_cons.1 hw with rfl | hw
      · exact .head (.map parts (.nil _)) rest.grows
      · -- of the entries with one text the last one is left
        obtain ⟨p, hp, hwp⟩ := List.mem_flatMap.1 hw
        obtain ⟨e, he, rfl⟩ := List.mem_map.1 hp
        have hmem := (List.of_mem_zip (Entries.mem_of_mem_ofList he)).2
        exact (ihp (List.mem_flatMap.2 ⟨_, hmem, hwp⟩)).behind
          (fun item hitem => .part .root hitem) rest.grows
    · exact (ih hw).tail
  | again ref rest ih =>
    rw [List.flatMap_cons, Sheet.parts_eq] at hw
    rcases List.mem_cons.1 hw with rfl | hw
    · exact .head (.again ref (.nil _)) rest.grows
    · exact (ih hw).tail
  | first unwritten fits parts rest ihp ih =>
    rw [List.flatMap_cons, Sheet.parts_eq] at hw
    rcases List.mem_append.1 hw with hw | hw
    · rcases List.mem_cons.1 hw with rfl | hw
      · exact .head (.first unwritten fits parts (.nil _)) rest.grows
      · obtain ⟨p, hp, hwp⟩ := List.mem_flatMap.1 hw
        obtain ⟨e, he, rfl⟩ := List.mem_map.1 hp
        refine (ihp (List.mem_flatMap.2 ⟨_, (List.of_mem_zip he).2, hwp⟩)).behind
          (fun value hvalue => .field .root ?_) rest.grows
        rwa [selectedValues_eq (Rules.fieldsFor_of_fits fits)]
    · exact (ih hw).tail

/-- An object with an identifier and a reference tell the identifier that the node has. -/
theorem identifier?_eq (h : Drawing g rules shared S vs us S') {w : Sheet}
    (hw : w ∈ us.flatMap Sheet.parts) {x : NodeId × String}
    (hx : w.identified? = some x ∨ w.reference? = some x) :
    Emission.identifier? (S'.filter shared) x.1 = some x.2 := by
  obtain ⟨S₀, v, M, hd, hM, -⟩ := h.of_mem_parts hw
  refine identifier?_of_prefix (hM.filter _) ?_
  cases hd with
  | scalar => exact absurd hx (by simp [Sheet.identified?, Sheet.reference?])
  | sequence => exact absurd hx (by simp [Sheet.identified?, Sheet.reference?])
  | map => exact absurd hx (by simp [Sheet.identified?, Sheet.reference?])
  -- what was an identifier when the sheet was drawn is one in the end
  | @again _ _ id r _ _ ref rest =>
    obtain rfl : (id, r) = x := by simpa [Sheet.identified?, Sheet.reference?] using hx
    exact identifier?_of_prefix (rest.grows.filter _) ref
  | @first _ _ _ id _ _ _ _ _ parts rest =>
    rcases hx with hx | hx
    · obtain ⟨r, hr, rfl⟩ := Option.map_eq_some_iff.1 hx
      exact identifier?_of_prefix ((parts.grows.trans rest.grows).filter _) hr
    · exact absurd hx (by simp [Sheet.reference?])

/-! ### Keys with different texts -/

/-- Entries whose keys have different texts make up a map as they are. -/
theorem ofList_zip {es : List (Scalar × Value)} {ps : List Sheet}
    (hkeys : DisplayedApart (es.map Prod.fst)) (hlen : ps.length = (es.map Prod.snd).length) :
    Entries.ofList ((es.map fun e => e.1.display).zip ps)
      = (es.map fun e => e.1.display).zip ps := by
  refine Entries.ofList_of_nodup ?_
  rw [DisplayedApart, List.map_map] at hkeys
  rwa [Entries.keys, List.map_fst_zip (by simpa using hlen.ge)]

/-- No entry is lost. -/
theorem complete (h : Drawing g rules shared S vs us S')
    (hkeys : ∀ es, Meets g rules root (.dict es) → DisplayedApart (es.map Prod.fst))
    (hmet : ∀ v ∈ vs, Meets g rules root v) : Sheet.Shows id g rules vs us := by
  induction h with
  | nil => exact .nil
  | scalar _ ih => exact .scalar (ih (List.forall_mem_cons.1 hmet).2)
  | @sequence _ _ _ v items _ _ _ hv _ _ ihp ih =>
    obtain ⟨hhead, hrest⟩ := List.forall_mem_cons.1 hmet
    refine .sequence hv (ihp fun w hw => hhead.part ?_) (ih hrest)
    rwa [Value.parts_of_items? hv]
  | @map _ _ _ es ps _ _ hparts _ ihp ih =>
    obtain ⟨hhead, hrest⟩ := List.forall_mem_cons.1 hmet
    rw [ofList_zip (hkeys es hhead) hparts.length_eq]
    exact .map (ihp fun w hw => hhead.part hw) (ih hrest)
  | again _ _ ih => exact .reference (ih (List.forall_mem_cons.1 hmet).2)
  | @first _ _ _ n _ _ _ _ fits _ _ ihp ih =>
    obtain ⟨hhead, hrest⟩ := List.forall_mem_cons.1 hmet
    refine .inline (ihp fun w hw => hhead.field ?_) (ih hrest)
    rwa [selectedValues_eq (Rules.fieldsFor_of_fits fits)]

/-- The objects with an identifier are those of the shared nodes that are written, in order. -/
theorem named_eq (h : Drawing g rules shared S vs us S')
    (hkeys : ∀ es, Meets g rules root (.dict es) → DisplayedApart (es.map Prod.fst))
    (hmet : ∀ v ∈ vs, Meets g rules root v) :
    S'.filter shared = S.filter shared ++ (us.flatMap Sheet.identified).map Prod.fst := by
  induction h with
  | nil => simp
  | scalar _ ih =>
    rw [ih (List.forall_mem_cons.1 hmet).2, List.flatMap_cons, Sheet.identified_eq]; rfl
  | @sequence _ _ _ v items ps _ _ hv _ _ ihp ih =>
    obtain ⟨hhead, hrest⟩ := List.forall_mem_cons.1 hmet
    have hitems : ∀ w ∈ items, Meets g rules root w := fun w hw =>
      hhead.part (by rwa [Value.parts_of_items? hv])
    rw [ih hrest, ihp hitems, List.flatMap_cons, Sheet.identified_eq, List.append_assoc,
      ← List.map_append]
    rfl
  | @map _ _ _ es ps _ _ hparts _ ihp ih =>
    obtain ⟨hhead, hrest⟩ := List.forall_mem_cons.1 hmet
    -- keys are displayed apart, so none of the entries is overwritten
    have hchildren : (((es.map fun e => e.1.display).zip ps).map Prod.snd) = ps :=
      List.map_snd_zip (by simp [hparts.length_eq])
    rw [ih hrest, ihp fun w hw => hhead.part hw, List.flatMap_cons, Sheet.identified_eq,
      List.append_assoc, ← List.map_append, ofList_zip (hkeys es hhead) hparts.length_eq,
      Sheet.children, hchildren]
    rfl
  | again _ _ ih =>
    rw [ih (List.forall_mem_cons.1 hmet).2, List.flatMap_cons, Sheet.identified_eq]; rfl
  | @first S _ _ n ps _ _ unwritten fits hparts _ ihp ih =>
    obtain ⟨hhead, hrest⟩ := List.forall_mem_cons.1 hmet
    have hfields : ∀ w ∈ (rules.projection (g.node n).schema).map (g.node n).get,
        Meets g rules root w := fun w hw => hhead.field (by
      rwa [selectedValues_eq (Rules.fieldsFor_of_fits fits)])
    have hchildren : ((rules.projection (g.node n).schema).zip ps).map Prod.snd = ps :=
      List.map_snd_zip (by simp [hparts.length_eq])
    rw [ih hrest, ihp hfields, List.flatMap_cons, Sheet.identified_eq, Sheet.children, hchildren,
      Emission.identifier?_concat unwritten, List.filter_append, Sheet.identified?]
    cases hs : shared n <;> simp [hs]

end Drawing

/-- A list without repetition has one member with a property that only one has. -/
theorem filter_eq_singleton {α : Type} [DecidableEq α] {l : List α} (hnd : l.Nodup) {x : α}
    (hx : x ∈ l) {p : α → Bool} (hp : ∀ y ∈ l, p y = true ↔ y = x) : l.filter p = [x] := by
  have hfilter : l.filter p = l.filter (· == x) :=
    List.filter_congr fun y hy => by rw [Bool.eq_iff_iff, hp y hy, beq_iff_eq]
  rw [hfilter, List.filter_beq, List.count_eq_one_of_mem hnd hx]
  rfl

/-- Where the keys of every map that is met have different texts, the document shows the root with
all entries of its maps, and every reference names the identifier of one object, which is written
for the same node. -/
theorem encode_resolves {g : Graph} {rules : Rules} {root : Value} {j : Json} (hg : g.IsProper)
    (hkeys : ∀ es, Meets g rules root (.dict es) → DisplayedApart (es.map Prod.fst))
    (h : g.encode rules root = .ok j) :
    ∃ sheet : Sheet, sheet.json = j ∧ Sheet.Shows id g rules [root] [sheet] ∧
      ∀ x ∈ sheet.references, sheet.identified.filter (fun y => y.2 = x.2) = [x] := by
  obtain ⟨shared, sheet, S, -, hd, hjson⟩ := encode_drawn hg h
  have hmet : ∀ v ∈ [root], Meets g rules root v := by simp [Meets.root]
  have hnamed : S.filter shared = sheet.identified.map Prod.fst := by
    simpa using hd.named_eq hkeys hmet
  have hid : ∀ w ∈ sheet.parts, ∀ x, w.identified? = some x ∨ w.reference? = some x →
      Emission.identifier? (S.filter shared) x.1 = some x.2 :=
    fun w hw x hx => hd.identifier?_eq (by simpa using hw) hx
  have hidentified : ∀ y ∈ sheet.identified,
      Emission.identifier? (S.filter shared) y.1 = some y.2 := by
    intro y hy
    obtain ⟨w, hw, hy⟩ := List.mem_filterMap.1 hy
    exact hid w hw y (.inl hy)
  refine ⟨sheet, hjson, hd.complete hkeys hmet, fun x hx => ?_⟩
  obtain ⟨w, hw, hx⟩ := List.mem_filterMap.1 hx
  have hxid := hid w hw x (.inr hx)
  have hnd : sheet.identified.Nodup := by
    have := (hd.nodup List.nodup_nil).filter shared
    rw [hnamed] at this
    exact this.of_map _
  -- the node of the reference has its identifier, so there is an object for it
  have hmem : x.1 ∈ sheet.identified.map Prod.fst := hnamed ▸ Emission.mem_of_identifier? hxid
  obtain ⟨y, hy, hyx⟩ := List.mem_map.1 hmem
  have hyid := hidentified y hy
  rw [hyx, hxid] at hyid
  obtain rfl : y = x := Prod.ext hyx (Option.some.inj hyid).symm
  refine filter_eq_singleton hnd hy fun z hz => ?_
  rw [decide_eq_true_iff]
  constructor
  · intro hzr
    have hzid := hidentified z hz
    rw [hzr] at hzid
    exact Prod.ext (identifier?_injective hzid hxid) hzr
  · rintro rfl
    rfl

/-! ### Keys of all kinds -/

/-- What holds of all the maps in a graph holds of the maps that are met. -/
theorem Meets.allMaps {g : Graph} {rules : Rules} {root v : Value} {P : List Scalar → Prop}
    (hmaps : g.AllMaps P root) (h : Meets g rules root v) : v.AllMaps P :=
  h.induct hmaps.root (fun _ hv _ hw => hv.of_mem_parts hw) hmaps.fields

/-- Two nodes; the first one has a map whose keys are scalars of different kinds. -/
def keyed : Graph where
  nodes := #[
    ⟨.custom "Box" none, [("table", .dict [(.int 1, .node 1), (.bool false, .text "no"),
      (.null, .list [.node 1]), (.float (.ofInt 2), .null), (.text "two", .null)]),
      ("item", .node 1)]⟩,
    ⟨.custom "Item" none, [("name", .text "x")]⟩]

/-- What is written of the graph with keys of different kinds. -/
def keyedDocument : Json :=
  .object [("table", .object [("1", .object [("$id", .string "1"), ("name", .string "x")]),
      ("False", .string "no"), ("None", .array [.object [("$ref", .string "1")]]),
      ("2.0", .null), ("two", .null)]),
    ("item", .object [("$ref", .string "1")])]

theorem isProper_keyed : keyed.IsProper := by
  intro n hn
  obtain rfl | rfl : n = _ ∨ n = _ := by simpa [keyed] using hn
  · exact ⟨by decide, by decide, by decide⟩
  · exact ⟨by decide, by decide, by decide⟩

theorem displayedApart_keyed {es : List (Scalar × Value)}
    (h : Meets keyed .everything (.node 0) (.dict es)) : DisplayedApart (es.map Prod.fst) := by
  have hall : keyed.AllMaps DisplayedApart (.node 0) := by
    refine ⟨.node 0, fun n hn => ?_⟩
    obtain rfl | rfl : n = _ ∨ n = _ := by simpa [keyed] using hn
    · simp only [List.forall_mem_cons, List.not_mem_nil, false_imp_iff, implies_true, and_true]
      refine ⟨.dict (by unfold DisplayedApart; decide +kernel) ?_, .node 1⟩
      simp only [List.map_cons, List.map_nil, List.forall_mem_cons, List.not_mem_nil,
        false_imp_iff, implies_true, and_true]
      exact ⟨.node 1, .scalar _, .list (by simpa using .node 1), .scalar _, .scalar _⟩
    · simp only [List.forall_mem_cons, List.not_mem_nil, false_imp_iff, implies_true, and_true]
      exact .scalar _
  cases h.allMaps hall with
  | dict keys _ => exact keys

/-- With keys of different kinds nothing is lost. -/
theorem encode_keyed : keyed.encode .everything (.node 0) = .ok keyedDocument ∧
    ∃ sheet : Sheet, sheet.json = keyedDocument ∧
      Sheet.Shows id keyed .everything [.node 0] [sheet] ∧
      ∀ x ∈ sheet.references, sheet.identified.filter (fun y => y.2 = x.2) = [x] :=
  ⟨rfl, encode_resolves isProper_keyed (fun _ => displayedApart_keyed) rfl⟩

/-! ### Keys with one text -/

/-- Two nodes; the first one has a map with two keys of one text. -/
def collision : Graph where
  nodes := #[
    ⟨.custom "Box" none, [("table", .dict [(.int 1, .node 1), (.text "1", .null)]),
      ("item", .node 1)]⟩,
    ⟨.custom "Item" none, [("name", .text "x")]⟩]

/-- What is written of the graph with two keys of one text. -/
def collisionDocument : Json :=
  .object [("table", .object [("1", .null)]), ("item", .object [("$ref", .string "1")])]

/-- Of the two entries of the map one is left.  The item is written as a reference, for it was
written with its identifier in the entry that is lost, so no object has the identifier. -/
theorem encode_collision :
    collision.encode .everything (.node 0) = .ok collisionDocument ∧
      collisionDocument.at? [0] = some (.object [("1", .null)]) ∧
      collisionDocument.at? [1] = some (.object [(refKey, .string "1")]) ∧
      collisionDocument.identified = [] := by
  refine ⟨rfl, rfl, rfl, ?_⟩
  cbv

end Encoding

end DeclGraph
