import DeclGraph.Proofs.Encoding.Failing
import DeclGraph.Proofs.Except
import DeclGraph.Snapshot.Basic

/-!
# The maps of a snapshot

A snapshot adds one node to a graph, and with it one map, the function map.  All else that stands in
the node or in the map stood in fields of the graph before (`Graph.AllMaps.snapshot`).  So if there
was no map in the graph, the function map is the only one that is met from the snapshot
(`Snapshot.eq_functions`).
-/

namespace DeclGraph

open Encoding

variable {g : Graph} {P : List Scalar → Prop} {compilation : Value} {s : Snapshot}

/-! ### What is read of a graph -/

namespace Graph.AllMaps

/-- What stands in a field of a node, also of one that is not there. -/
theorem get (h : g.AllMaps P compilation) (id : NodeId) (name : String) :
    ((g.node id).get name).AllMaps P := by
  by_cases hname : name ∈ (g.node id).fieldNames
  · obtain ⟨e, he, hget⟩ := Node.mem_fields_of_get hname
    rcases g.node_mem_or id with hid | hid
    · rw [← hget]
      exact h.fields _ hid e he
    · rw [hid] at he
      exact absurd he List.not_mem_nil
  · have hnone : (g.node id).get? name = none := Entries.get?_eq_none_iff.2 hname
    rw [Node.get, hnone]
    exact .scalar .null

/-- The members of a value are fields of its node. -/
theorem member (h : g.AllMaps P compilation) {v w : Value} {name : String}
    (hmember : g.member v name = .ok w) : w.AllMaps P := by
  cases v with
  | node id =>
    rw [Graph.member] at hmember
    split at hmember
    · next found hfound =>
      obtain rfl := Except.ok.inj hmember
      have hget : (g.node id).get name = found := by rw [Node.get, hfound]; rfl
      exact hget ▸ h.get id name
    · exact absurd hmember (by simp)
  | scalar | list | tuple | dict | foreign => exact absurd hmember (by simp [Graph.member])

end Graph.AllMaps

theorem Value.AllMaps.of_itemsOf {v : Value} (h : v.AllMaps P) {items : List Value}
    (hitems : g.itemsOf v = .ok items) : ∀ w ∈ items, w.AllMaps P := by
  rw [Graph.itemsOf] at hitems
  split at hitems
  · next found hfound =>
    obtain rfl := Except.ok.inj hitems
    rcases Value.eq_of_items? hfound with rfl | rfl
    · cases h with | list hall => exact hall
    · cases h with | tuple hall => exact hall
  · exact absurd hitems (by simp)

/-- What stands in a node of a kind has been given, or is usual where nothing has been given. -/
theorem Node.mem_of_mem_make {kind : Kind} {given : List (String × Value)} {e : String × Value}
    (h : e ∈ (Node.make kind given).fields) :
    e ∈ given ∨ e ∈ kind.fields ∧ e.1 ∉ Entries.keys given := by
  obtain ⟨⟨name, usual⟩, hfield, rfl⟩ := List.mem_map.1 h
  dsimp only
  cases hget : Entries.get? name given with
  | some v => exact .inl (Entries.mem_of_get? hget)
  | none => exact .inr ⟨hfield, Entries.get?_eq_none_iff.1 hget⟩

/-- Whether a value is a scalar, or empty. -/
def Value.isPlain : Value → Bool
  | .scalar _ | .list [] | .tuple [] => true
  | _ => false

theorem Value.AllMaps.of_isPlain {v : Value} (h : v.isPlain) : v.AllMaps P := by
  unfold isPlain at h
  split at h
  · exact .scalar _
  · exact .list fun v hv => absurd hv List.not_mem_nil
  · exact .tuple fun v hv => absurd hv List.not_mem_nil
  · exact absurd h (by simp)

/-- Only snapshots have a map where nothing is said. -/
theorem Kind.all_isPlain_fields {kind : Kind} (h : kind ≠ .snapshot) :
    kind.fields.all fun e => e.2.isPlain := by
  cases kind <;> first | rfl | exact absurd rfl h

/-- Apart from snapshots a node has no maps but those it has been given. -/
theorem Node.allMaps_make {kind : Kind} (hkind : kind ≠ .snapshot) {given : List (String × Value)}
    (hgiven : ∀ e ∈ given, e.2.AllMaps P) : ∀ e ∈ (Node.make kind given).fields, e.2.AllMaps P := by
  intro e he
  rcases Node.mem_of_mem_make he with he | ⟨he, -⟩
  · exact hgiven e he
  · exact .of_isPlain (List.all_eq_true.1 (Kind.all_isPlain_fields hkind) e he)

/-! ### The bodies of functions -/

namespace Scalar

/-- The values of a map with one more entry. -/
theorem snd_of_mem_put {α : Type} {k : Scalar} {v : α} {m : List (Scalar × α)} {e : Scalar × α}
    (h : e ∈ put k v m) : e.2 = v ∨ e ∈ m := by
  induction m with
  | nil =>
    obtain rfl := List.mem_singleton.1 h
    exact .inl rfl
  | cons first rest ih =>
    rw [put] at h
    split_ifs at h
    · rcases List.mem_cons.1 h with rfl | h
      · exact .inl rfl
      · exact .inr (List.mem_cons_of_mem _ h)
    · rcases List.mem_cons.1 h with rfl | h
      · exact .inr List.mem_cons_self
      · exact (ih h).imp_right (List.mem_cons_of_mem _)

end Scalar

namespace FunctionMap

/-- Every body of a map is one of those that it is made of. -/
theorem exists_body_of_mem {bodies : List (Scalar × List Value)} {e : Scalar × List Value}
    (h : e ∈ (ofBodies bodies).entries) : ∃ body ∈ bodies, e.2 = body.2 := by
  induction bodies using List.reverseRecOn with
  | nil => exact absurd h List.not_mem_nil
  | append_singleton bodies last ih =>
    rw [ofBodies, List.foldl_append] at h
    rcases Scalar.snd_of_mem_put h with hlast | h
    · exact ⟨last, by simp, hlast⟩
    · obtain ⟨body, hbody, heq⟩ := ih h
      exact ⟨body, List.mem_append_left _ hbody, heq⟩

variable (hmaps : g.AllMaps P compilation)

include hmaps

theorem allMaps_children {function : Value} {found : List Value}
    (h : children g function = .ok found) : ∀ w ∈ found, w.AllMaps P := by
  cases function with
  | node id =>
    unfold children at h
    dsimp only at h
    split_ifs at h
    · obtain ⟨parameters, hparameters, h⟩ := exists_of_bind_eq_ok h
      obtain ⟨statements, hstatements, h⟩ := exists_of_bind_eq_ok h
      obtain rfl := Except.ok.inj h
      intro w hw
      rcases List.mem_append.1 hw with hw | hw
      · exact (hmaps.get id _).of_itemsOf hparameters w hw
      · exact (hmaps.get id _).of_itemsOf hstatements w hw
    · split at h <;> exact absurd h (by simp)
  | scalar | list | tuple | dict | foreign => exact absurd h (by simp [children])

theorem allMaps_body? {function : Value} {body : Scalar × List Value}
    (h : body? g function = .ok (some body)) : ∀ w ∈ body.2, w.AllMaps P := by
  obtain ⟨found, hfound, h⟩ := exists_of_bind_eq_ok h
  obtain ⟨name, -, h⟩ := exists_of_bind_eq_ok h
  split_ifs at h
  · exact absurd h (by simp [pure, Except.pure])
  · cases name with
    | scalar name =>
      obtain rfl := Option.some.inj (Except.ok.inj h)
      exact fun w hw => allMaps_children hmaps hfound w (List.mem_filter.1 hw).1
    | list | tuple | dict | node | foreign => exact absurd h (by simp [throw, throwThe,
        MonadExceptOf.throw])

theorem allMaps_bodies {functions : List Value} {found : List (Scalar × List Value)}
    (h : bodies g functions = .ok found) : ∀ body ∈ found, ∀ w ∈ body.2, w.AllMaps P := by
  induction functions generalizing found with
  | nil =>
    obtain rfl := Except.ok.inj h
    exact fun body hbody => absurd hbody List.not_mem_nil
  | cons function rest ih =>
    obtain ⟨first, hfirst, h⟩ := exists_of_bind_eq_ok h
    obtain ⟨others, hothers, h⟩ := exists_of_bind_eq_ok h
    obtain rfl := Except.ok.inj h
    intro body hbody
    rcases List.mem_append.1 hbody with hbody | hbody
    · obtain rfl := Option.mem_toList.1 hbody
      exact allMaps_body? hmaps hfirst
    · exact ih hothers body hbody

/-- The nodes in a map of functions stood in fields of these. -/
theorem allMaps_ofFunctions {functions : List Value} {m : FunctionMap}
    (h : ofFunctions g functions = .ok m) : ∀ e ∈ m.entries, (Value.tuple e.2).AllMaps P := by
  rw [ofFunctions] at h
  cases hbodies : bodies g functions with
  | error e => rw [hbodies] at h; exact absurd h (by simp [Except.map])
  | ok found =>
    rw [hbodies] at h
    obtain rfl := Except.ok.inj h
    intro e he
    obtain ⟨body, hbody, heq⟩ := exists_body_of_mem he
    rw [heq]
    exact .tuple (allMaps_bodies hmaps hbodies body hbody)

end FunctionMap

/-! ### The snapshot -/

namespace Snapshot

/-- The function map as it stands in the node of the snapshot. -/
def functions (s : Snapshot) : Value :=
  .dict (s.functionMap.entries.map fun (name, nodes) => (name, Value.tuple nodes))

/-- The names in the function map, as they are written. -/
def functionNames (s : Snapshot) : List String := s.functionMap.entries.map fun e => e.1.display

end Snapshot

namespace Graph

/-- The collections of a snapshot hold what those of the compilation hold. -/
theorem AllMaps.topLevel (h : g.AllMaps P compilation) {functions : List Value}
    {collections : List (String × Value)}
    (htop : g.topLevel compilation = .ok (functions, collections)) :
    ∀ e ∈ collections, e.2.AllMaps P := by
  -- a collection is read off a member of the compilation and has no maps of its own
  have hcollection : ∀ {name : String} {items : List Value},
      (do g.itemsOf (← g.member compilation name)) = .ok items → (Value.tuple items).AllMaps P := by
    intro name items hitems
    obtain ⟨v, hv, hitems⟩ := exists_of_bind_eq_ok hitems
    exact .tuple ((h.member hv).of_itemsOf hitems)
  obtain ⟨functions, hfunctions, htop⟩ := exists_of_bind_eq_ok htop
  obtain ⟨attributes, hattributes, htop⟩ := exists_of_bind_eq_ok htop
  obtain ⟨classes, hclasses, htop⟩ := exists_of_bind_eq_ok htop
  obtain ⟨enums, henums, htop⟩ := exists_of_bind_eq_ok htop
  obtain ⟨fields, hfields, htop⟩ := exists_of_bind_eq_ok htop
  obtain ⟨typedefs, htypedefs, htop⟩ := exists_of_bind_eq_ok htop
  obtain ⟨macros, hmacros, htop⟩ := exists_of_bind_eq_ok htop
  obtain ⟨namespaces, hnamespaces, htop⟩ := exists_of_bind_eq_ok htop
  obtain ⟨-, rfl⟩ := Prod.mk.inj (Except.ok.inj htop)
  simp only [List.forall_mem_cons, List.not_mem_nil, false_imp_iff, implies_true, and_true]
  exact ⟨hcollection hattributes, hcollection hclasses, hcollection henums, hcollection hfields,
    hcollection hfunctions, hcollection htypedefs, hcollection hmacros, hcollection hnamespaces⟩

/-- A snapshot puts a node with the function map behind the nodes of the graph. -/
theorem exists_of_snapshot (hs : g.snapshot compilation = .ok s) :
    ∃ functions collections, g.topLevel compilation = .ok (functions, collections) ∧
      FunctionMap.ofFunctions g functions = .ok s.functionMap ∧ s.root = .node g.size ∧
      s.graph = g.add (.make .snapshot (collections ++ [("function_map", s.functions)])) := by
  obtain ⟨⟨functions, collections⟩, htop, hs⟩ := exists_of_bind_eq_ok hs
  obtain ⟨functionMap, hmap, hs⟩ := exists_of_bind_eq_ok hs
  obtain rfl := Except.ok.inj hs
  exact ⟨functions, collections, htop, hmap, rfl, rfl⟩

theorem IsProper.snapshot (hg : g.IsProper) (hs : g.snapshot compilation = .ok s) :
    s.graph.IsProper := by
  obtain ⟨functions, collections, -, -, -, hgraph⟩ := exists_of_snapshot hs
  intro n hn
  rw [hgraph, Graph.add, Array.toList_push] at hn
  rcases List.mem_append.1 hn with hn | hn
  · exact hg n hn
  · rw [List.mem_singleton.1 hn]
    exact Node.isProper_make _ _

/-- In the fields of the snapshot's graph there are the function map, and besides it only what was
in fields before. -/
theorem AllMaps.snapshot (h : g.AllMaps P compilation) (hs : g.snapshot compilation = .ok s) :
    ∀ n ∈ s.graph.nodes.toList, ∀ e ∈ n.fields, e.2 = s.functions ∨ e.2.AllMaps P := by
  obtain ⟨functions, collections, htop, -, -, hgraph⟩ := exists_of_snapshot hs
  intro n hn e he
  rw [hgraph, Graph.add, Array.toList_push] at hn
  rcases List.mem_append.1 hn with hn | hn
  · exact .inr (h.fields n hn e he)
  · rw [List.mem_singleton.1 hn] at he
    rcases Node.mem_of_mem_make he with hgiven | ⟨husual, hkey⟩
    · rcases List.mem_append.1 hgiven with hcollection | hmap
      · exact .inr (h.topLevel htop e hcollection)
      · obtain rfl := List.mem_singleton.1 hmap
        exact .inl rfl
    · -- the function map is given, and the other fields are usually empty
      have hname : e.1 ≠ "function_map" := fun heq => hkey (by simp [Entries.keys, heq])
      have hempty : ∀ e ∈ Kind.snapshot.fields, e.1 ≠ "function_map" → e.2 = .tuple [] := by
        simp [Kind.fields]
      rw [hempty e husual hname]
      exact .inr (.tuple fun v hv => absurd hv List.not_mem_nil)

end Graph

namespace Snapshot

variable {rules : Rules}

/-- Where there was no map, the function map is the only one that is met from the snapshot. -/
theorem eq_functions (hmaps : g.AllMaps (fun _ => False) compilation)
    (hs : g.snapshot compilation = .ok s) {es : List (Scalar × Value)}
    (h : Meets s.graph rules s.root (.dict es)) : .dict es = s.functions := by
  obtain ⟨functions, -, -, hfunctions, hroot, -⟩ := Graph.exists_of_snapshot hs
  have hmet : Value.dict es = s.functions ∨ (Value.dict es).AllMaps fun _ => False := by
    refine h.induct (P := fun v => v = s.functions ∨ v.AllMaps fun _ => False) ?_ ?_
      (hmaps.snapshot hs)
    · rw [hroot]
      exact .inr (.node g.size)
    · rintro v (rfl | hv) w hw
      · -- the parts of the function map are the bodies
        obtain ⟨entry, hentry, rfl⟩ := List.mem_map.1 hw
        obtain ⟨e, he, rfl⟩ := List.mem_map.1 hentry
        exact .inr (FunctionMap.allMaps_ofFunctions hmaps hfunctions e he)
      · exact .inr (hv.of_mem_parts hw)
  rcases hmet with heq | hnone
  · exact heq
  · cases hnone with | dict hkeys _ => exact hkeys.elim

end Snapshot

end DeclGraph
