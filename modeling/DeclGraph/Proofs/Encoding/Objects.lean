import DeclGraph.Proofs.Encoding.Inline
import DeclGraph.Proofs.Encoding.Parts

/-!
# The objects of a document

The objects of a document are those of its sheet, in the order of the text (`Sheet.objects_json`).
Each is a reference, a node with its fields, or a map, and this decides on its keys: a reference has
one, a node has those of its fields, which are never markers (`Drawing.notMem_of_inline`), and a map
has the texts of its keys, whatever they are (`Drawing.of_map`).

A reader takes an object for a reference, or for a node with an identifier, if it finds a string
under the key of the marker (`Json.marker?`).
-/

namespace DeclGraph

open Encoding

/-! ### Objects -/

namespace Json

/-- Whether a value is an object. -/
def isObject : Json → Bool
  | .object _ => true
  | _ => false

/-- The keys of an object, in order. -/
def keys : Json → List String
  | .object entries => Entries.keys entries
  | _ => []

/-- The objects among values with positions. -/
def objectsOf (ps : List (Position × Json)) : List Json := (ps.map Prod.snd).filter isObject

/-- The objects of a document, in the order of the text. -/
def objects (j : Json) : List Json := objectsOf (j.parts [])

theorem objectsOf_append (ps qs : List (Position × Json)) :
    objectsOf (ps ++ qs) = objectsOf ps ++ objectsOf qs := by
  rw [objectsOf, List.map_append, List.filter_append]; rfl

/-- The objects in some values are found one value after another. -/
theorem objectsOf_partsAt {ps : List Position} {ws : List Json} (h : ps.length = ws.length)
    {f : Json → List Json} (hf : ∀ w ∈ ws, ∀ p, objectsOf (w.parts p) = f w) :
    objectsOf (partsAt ps ws) = ws.flatMap f := by
  induction ws generalizing ps with
  | nil =>
    rw [List.length_eq_zero_iff.1 h]
    rfl
  | cons w ws ih =>
    obtain ⟨p, ps, rfl⟩ := List.exists_cons_of_length_eq_add_one h
    obtain ⟨hw, hws⟩ := List.forall_mem_cons.1 hf
    rw [partsAt_cons, objectsOf_append, hw, List.flatMap_cons, ih (by simpa using h) hws]

/-- The objects in a value are itself, if it is one, and those in its children, wherever it
stands. -/
theorem objectsOf_parts (w : Json) (p : Position) :
    objectsOf (w.parts p) = [w].filter isObject ++ w.children.flatMap objects := by
  induction h : sizeOf w using Nat.strong_induction_on generalizing w p with
  | _ n ih =>
    have hchildren : ∀ c ∈ w.children, ∀ q, objectsOf (c.parts q) = c.objects := fun c hc q =>
      (ih _ (h ▸ sizeOf_lt_of_mem_children hc) c q rfl).trans
        (ih _ (h ▸ sizeOf_lt_of_mem_children hc) c [] rfl).symm
    rw [parts_eq, ← List.singleton_append, objectsOf_append,
      objectsOf_partsAt (length_positions ..) hchildren]
    rfl

theorem objects_eq (w : Json) :
    w.objects = [w].filter isObject ++ w.children.flatMap objects := objectsOf_parts w []

/-! ### Reading markers -/

/-- What a reader finds under the key of a marker: a string, if there is one. -/
def marker? (key : String) (w : Json) : Option String := (w.get? key).bind string?

theorem marker?_of_notMem {key : String} {w : Json} (h : key ∉ w.keys) :
    w.marker? key = none := by
  cases w with
  | object entries =>
    have hget : (object entries).get? key = none := Entries.get?_eq_none_iff.2 h
    rw [marker?, hget]
    rfl
  | null | bool | int | float | string | array => rfl

/-- Where all values are arrays a reader finds nothing. -/
theorem marker?_of_arrays {entries : List (String × Json)}
    (h : ∀ w ∈ entries.map Prod.snd, ∃ items, w = .array items) (key : String) :
    (object entries).marker? key = none := by
  rw [marker?]
  cases hget : (object entries).get? key with
  | none => rfl
  | some w =>
    obtain ⟨items, rfl⟩ := h w (List.mem_map_of_mem (Entries.mem_of_get? hget))
    rfl

end Json

/-! ### The objects of a sheet -/

namespace Encoding

namespace Sheet

/-- Whether a sheet is that of an object. -/
def isObject : Sheet → Bool
  | .scalar _ | .list _ => false
  | .map _ | .inline .. | .reference .. => true

/-- Whether a sheet is that of a map. -/
def isMap : Sheet → Bool
  | .map _ => true
  | _ => false

theorem sizeOf_lt_of_mem_children {u c : Sheet} (h : c ∈ u.children) : sizeOf c < sizeOf u := by
  have hentries : ∀ {entries : List (String × Sheet)}, c ∈ entries.map Prod.snd →
      sizeOf c < sizeOf entries := by
    intro entries hc
    obtain ⟨⟨k, c⟩, he, rfl⟩ := List.mem_map.1 hc
    have := List.sizeOf_lt_of_mem he
    simp only [Prod.mk.sizeOf_spec] at this
    dsimp only
    omega
  cases u with
  | list items =>
    have := List.sizeOf_lt_of_mem (show c ∈ items from h)
    simp only [list.sizeOf_spec]; omega
  | map entries =>
    have := hentries h
    simp only [map.sizeOf_spec]; omega
  | inline id identifier? fields =>
    have := hentries h
    simp only [inline.sizeOf_spec]; omega
  | scalar | reference => exact absurd h List.not_mem_nil

theorem isObject_json (u : Sheet) : u.json.isObject = u.isObject := by
  cases u with
  | scalar s => cases s <;> rfl
  | list items => rw [json_list]; rfl
  | map entries => rw [json_map]; rfl
  | inline id identifier? fields => rw [json_inline]; rfl
  | reference id r => rw [json]; rfl

/-- Besides the sheets that stand in a sheet there are no objects in its document. -/
theorem flatMap_objects_children (u : Sheet) :
    u.json.children.flatMap Json.objects = (u.children.map json).flatMap Json.objects := by
  have hentries (entries : List (String × Sheet)) :
      (entries.map fun e => (e.1, e.2.json)).map Prod.snd = (entries.map Prod.snd).map json := by
    rw [List.map_map, List.map_map]; rfl
  have hstring (r : String) : (Json.string r).objects = [] := by rw [Json.objects_eq]; rfl
  cases u with
  | scalar s => cases s <;> rfl
  | list items => rw [json_list]; rfl
  | map entries => rw [json_map, Json.children, hentries, children]
  | inline id identifier? fields =>
    rw [json_inline, Json.children, List.map_append, List.flatMap_append, hentries, children]
    cases identifier? with
    | none => rfl
    | some r =>
      show [Json.string r].flatMap Json.objects ++ _ = _
      rw [List.flatMap_singleton, hstring, List.nil_append]
  | reference id r =>
    rw [json]
    show [Json.string r].flatMap Json.objects = _
    rw [List.flatMap_singleton, hstring]
    rfl

/-- The objects of the document are those of the sheet, in order. -/
theorem objects_json (u : Sheet) : u.json.objects = (u.parts.filter isObject).map json := by
  induction h : sizeOf u using Nat.strong_induction_on generalizing u with
  | _ n ih =>
    have hself : [u.json].filter Json.isObject = ([u].filter isObject).map json := by
      cases hu : u.isObject <;> simp [isObject_json, hu]
    have hchildren : (u.children.map json).flatMap Json.objects
        = u.children.flatMap fun c => (c.parts.filter isObject).map json := by
      rw [List.flatMap_map]
      exact List.flatMap_congr fun c hc => ih _ (h ▸ sizeOf_lt_of_mem_children hc) c rfl
    have hparts : u.parts = [u] ++ u.children.flatMap parts := parts_eq u
    rw [Json.objects_eq, flatMap_objects_children, hself, hchildren, hparts, List.filter_append,
      List.map_append, List.filter_flatMap, List.map_flatMap]

end Sheet

/-! ### Keys -/

namespace Drawing

variable {g : Graph} {rules : Rules} {shared : NodeId → Bool} {S S' : List NodeId}
  {vs : List Value} {us : List Sheet} (h : Drawing g rules shared S vs us S')

include h

/-- No field of a node is called like a marker. -/
theorem notMem_of_inline (hg : g.IsProper) {id : NodeId} {identifier? : Option String}
    {fields : List (String × Sheet)}
    (hmem : .inline id identifier? fields ∈ us.flatMap Sheet.parts) :
    refKey ∉ Entries.keys fields ∧ idKey ∉ Entries.keys fields := by
  obtain ⟨-, hkeys⟩ := h.of_inline hmem
  have hsub := rules.sublist_projection (g.node id)
  rw [hkeys]
  exact ⟨fun href => (hg.node id).refKey_notMem (hsub.subset href),
    fun hid => (hg.node id).idKey_notMem (hsub.subset hid)⟩

/-- The map of a sheet has been met, and it is built of the entries of that one. -/
theorem of_map {entries : List (String × Sheet)} (hmem : .map entries ∈ us.flatMap Sheet.parts) :
    ∃ es ps, (∃ u ∈ vs, Meets g rules u (.dict es)) ∧
      Sheet.Shows Entries.ofList g rules (es.map Prod.snd) ps ∧
      entries = Entries.ofList ((es.map fun e => e.1.display).zip ps) := by
  obtain ⟨S₀, v, M, hd, -, hmet⟩ := h.of_mem_parts hmem
  cases hd with
  | map parts _ => exact ⟨_, _, hmet, parts.shows, rfl⟩

end Drawing

namespace Sheet

/-- Tuples are written as arrays. -/
theorem Shows.arrays {kept : List (String × Sheet) → List (String × Sheet)} {g : Graph}
    {rules : Rules} {vs : List Value} {us : List Sheet} (h : Shows kept g rules vs us)
    (hvs : ∀ v ∈ vs, ∃ items, v = .tuple items) : ∀ u ∈ us, ∃ items, u.json = .array items := by
  induction h with
  | nil => exact fun u hu => absurd hu List.not_mem_nil
  | sequence _ _ _ _ ih =>
    refine List.forall_mem_cons.2 ⟨⟨_, json_list _⟩, ih (List.forall_mem_cons.1 hvs).2⟩
  | scalar | map | inline | reference =>
    obtain ⟨items, heq⟩ := hvs _ List.mem_cons_self
    exact absurd heq (by simp)

end Sheet

end Encoding

end DeclGraph
