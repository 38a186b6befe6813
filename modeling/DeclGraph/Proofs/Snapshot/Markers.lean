import DeclGraph.Proofs.Encoding.Objects
import DeclGraph.Proofs.Snapshot.Maps

/-!
# Markers in the document of a snapshot

References and identifiers are told by two keys, and the names of functions are keys as well, for
the function map is written as an object.  A compiler may let a name have a dollar sign in it, so a
function can be called like a marker; then the object of the function map has the key of the marker,
although it is no reference and tells no identifier (`Snapshot.encode_dollars`).

Main statement: `Snapshot.encode_marks`.  There is no other such object.  And since a body is an
array, while references and identifiers are strings, a reader that looks for a string under the key
of a marker finds the references and the identifiers, and nothing else.
-/

namespace DeclGraph

open Encoding

namespace Snapshot

variable {g : Graph} {compilation : Value} {s : Snapshot} {rules : Rules}

/-- What the keys of markers mean in a part of the document of a snapshot. -/
structure Marks (s : Snapshot) (rules : Rules) (u : Sheet) : Prop where
  /-- A reference has the key of references, and so has the map if a function is called like it. -/
  refKey_mem : refKey ∈ u.json.keys ↔
    u.reference?.isSome ∨ u.isMap ∧ refKey ∈ s.functionNames
  /-- A node with an identifier has the key of identifiers, and so has the map if a function is
  called like it. -/
  idKey_mem : idKey ∈ u.json.keys ↔
    u.identified?.isSome ∨ u.isMap ∧ idKey ∈ s.functionNames
  /-- Only nodes that are reached more than once have identifiers. -/
  reachedTwice : ∀ x, u.identified? = some x → ReachedTwice s.graph rules s.root x.1
  /-- A reader takes for references what has been written as such. -/
  reference : u.json.marker? refKey = u.reference?.map Prod.snd
  /-- A reader takes for identifiers what has been written as such. -/
  identifier : u.json.marker? idKey = u.identified?.map Prod.snd

namespace Marks

/-- What is no object has no keys. -/
theorem of_keys_eq_nil {u : Sheet} (hkeys : u.json.keys = []) (href : u.reference? = none)
    (hid : u.identified? = none) (hmap : u.isMap = false) : s.Marks rules u where
  refKey_mem := by simp [hkeys, href, hmap]
  idKey_mem := by simp [hkeys, hid, hmap]
  reachedTwice := by simp [hid]
  reference := by rw [Json.marker?_of_notMem (by simp [hkeys]), href]; rfl
  identifier := by rw [Json.marker?_of_notMem (by simp [hkeys]), hid]; rfl

/-- A reference has the key of references only. -/
theorem of_reference (id : NodeId) (r : String) : s.Marks rules (.reference id r) := by
  have hjson : (Sheet.reference id r).json = .object [(refKey, .string r)] := by rw [Sheet.json]
  have hkeys : (Sheet.reference id r).json.keys = [refKey] := by rw [hjson]; rfl
  have hid : idKey ∉ (Sheet.reference id r).json.keys := by rw [hkeys]; decide
  refine ⟨?_, ?_, ?_, ?_, ?_⟩
  · simp [hkeys, Sheet.reference?]
  · simp [hid, Sheet.identified?, Sheet.isMap]
  · simp [Sheet.identified?]
  · rw [hjson]; rfl
  · rw [Json.marker?_of_notMem hid]; rfl

/-- A node has the key of identifiers if it has an identifier, for its fields have other names. -/
theorem of_inline {id : NodeId} {identifier? : Option String} {fields : List (String × Sheet)}
    (href : refKey ∉ Entries.keys fields) (hid : idKey ∉ Entries.keys fields)
    (htwice : identifier?.isSome → ReachedTwice s.graph rules s.root id) :
    s.Marks rules (.inline id identifier? fields) := by
  -- the identifier comes before the fields and has a key of its own
  have hne : refKey ≠ idKey := by decide
  have hkeys : (Sheet.inline id identifier? fields).json.keys
      = (identifier?.toList.map fun _ => idKey) ++ Entries.keys fields := by
    rw [Sheet.json_inline, Json.keys, Entries.keys, List.map_append, List.map_map, List.map_map]
    rfl
  have hrefKey : refKey ∉ (Sheet.inline id identifier? fields).json.keys := by
    rw [hkeys]
    cases identifier? <;> simp [href, hne]
  refine ⟨?_, ?_, ?_, ?_, ?_⟩
  · simp [hrefKey, Sheet.reference?, Sheet.isMap]
  · rw [hkeys]
    cases identifier? <;> simp [hid, Sheet.identified?, Sheet.isMap]
  · intro x hx
    obtain ⟨r, hr, rfl⟩ := Option.map_eq_some_iff.1 hx
    exact htwice (by simp [hr])
  · rw [Json.marker?_of_notMem hrefKey]; rfl
  · cases identifier? with
    | none => exact Json.marker?_of_notMem (by simpa [hkeys] using hid)
    | some r => rw [Sheet.json_inline]; rfl

/-- The function map has the names of functions as keys, and nothing but arrays under them. -/
theorem of_map {entries : List (String × Sheet)}
    (hkeys : ∀ k, k ∈ Entries.keys entries ↔ k ∈ s.functionNames)
    (harrays : ∀ e ∈ entries, ∃ items, e.2.json = .array items) :
    s.Marks rules (.map entries) := by
  have hmem (k : String) : k ∈ (Sheet.map entries).json.keys ↔ k ∈ s.functionNames := by
    rw [← hkeys, Sheet.json_map, Json.keys, Entries.keys, List.map_map]
    rfl
  have hvalues : ∀ w ∈ (entries.map fun e => (e.1, e.2.json)).map Prod.snd,
      ∃ items, w = Json.array items := by
    intro w hw
    obtain ⟨x, hx, rfl⟩ := List.mem_map.1 hw
    obtain ⟨e, he, rfl⟩ := List.mem_map.1 hx
    exact harrays e he
  refine ⟨?_, ?_, ?_, ?_, ?_⟩
  · simp [hmem, Sheet.reference?, Sheet.isMap]
  · simp [hmem, Sheet.identified?, Sheet.isMap]
  · simp [Sheet.identified?]
  · rw [Sheet.json_map, Json.marker?_of_arrays hvalues]; rfl
  · rw [Sheet.json_map, Json.marker?_of_arrays hvalues]; rfl

end Marks

/-- The sheet of a map that is met from a snapshot has the names of functions as keys, and arrays
under them. -/
theorem functions_of_shows (hmaps : g.AllMaps (fun _ => False) compilation)
    (hs : g.snapshot compilation = .ok s) {es : List (Scalar × Value)}
    (hmet : Meets s.graph rules s.root (.dict es)) {ps : List Sheet}
    (hshows : Sheet.Shows Entries.ofList s.graph rules (es.map Prod.snd) ps)
    {entries : List (String × Sheet)}
    (hentries : entries = Entries.ofList ((es.map fun e => e.1.display).zip ps)) :
    (∀ k, k ∈ Entries.keys entries ↔ k ∈ s.functionNames) ∧
      ∀ e ∈ entries, ∃ items, e.2.json = .array items := by
  -- the only map of a snapshot is that of the functions
  have hes : es = s.functionMap.entries.map fun e => (e.1, Value.tuple e.2) :=
    Value.dict.inj (eq_functions hmaps hs hmet)
  have hnames : es.map (fun e => e.1.display) = s.functionNames := by
    rw [hes, List.map_map]; rfl
  constructor
  · intro k
    rw [hentries, Entries.keys_ofList, List.mem_eraseDups, hnames, List.map_fst_zip]
    rw [hshows.length_eq, ← hnames, List.length_map, List.length_map]
  · have htuples : ∀ v ∈ es.map Prod.snd, ∃ items, v = Value.tuple items := by
      rw [hes]
      intro v hv
      obtain ⟨x, hx, rfl⟩ := List.mem_map.1 hv
      obtain ⟨e, -, rfl⟩ := List.mem_map.1 hx
      exact ⟨e.2, rfl⟩
    intro e he
    rw [hentries] at he
    exact hshows.arrays htuples e.2 (List.of_mem_zip (Entries.mem_of_mem_ofList he)).2

/-- In the document of a snapshot the keys of markers stand in references and in nodes that are
reached more than once, and beyond that only in the function map, as names of functions; and a
reader that looks for strings under these keys finds the references and the identifiers. -/
theorem encode_marks {j : Json} (hg : g.IsProper)
    (hmaps : g.AllMaps (fun _ => False) compilation) (hs : g.snapshot compilation = .ok s)
    (h : s.graph.encode rules s.root = .ok j) :
    ∃ sheet : Sheet, sheet.json = j ∧
      Sheet.Shows Entries.ofList s.graph rules [s.root] [sheet] ∧
      j.objects = (sheet.parts.filter Sheet.isObject).map Sheet.json ∧
      ∀ u ∈ sheet.parts, s.Marks rules u := by
  have hproper : s.graph.IsProper := hg.snapshot hs
  obtain ⟨shared, sheet, S, hshared, hd, rfl⟩ := encode_drawn hproper h
  refine ⟨sheet, rfl, hd.shows, sheet.objects_json, fun u hu => ?_⟩
  have hmem : u ∈ [sheet].flatMap Sheet.parts := by simpa using hu
  -- a sheet with objects in it is a node, a reference or the map of functions
  cases u with
  | scalar c => exact .of_keys_eq_nil (by rw [Sheet.json]; cases c <;> rfl) rfl rfl rfl
  | list items => exact .of_keys_eq_nil (by rw [Sheet.json]; rfl) rfl rfl rfl
  | reference id r => exact .of_reference id r
  | inline id identifier? fields =>
    obtain ⟨href, hid⟩ := hd.notMem_of_inline hproper hmem
    exact .of_inline href hid fun hsome => (hshared id).1 ((hd.of_inline hmem).1.1 hsome)
  | map entries =>
    obtain ⟨es, ps, ⟨root, hroot, hmet⟩, hshows, hentries⟩ := hd.of_map hmem
    obtain rfl := List.mem_singleton.1 hroot
    obtain ⟨hkeys, harrays⟩ := functions_of_shows hmaps hs hmet hshows hentries
    exact .of_map hkeys harrays

/-! ### Functions that are called like markers -/

/-- A compilation with two functions of one type, which are called like the two markers. -/
def dollars : Graph where
  nodes := #[
    .make .compilation [("input_file", .text "a.c"), ("functions", .list [.node 1, .node 2])],
    .make .function
      [("name", .text "$ref"), ("return_type", .node 3), ("statements", .list [.node 4])],
    .make .function
      [("name", .text "$id"), ("return_type", .node 3), ("statements", .list [.node 5])],
    .make .primitiveType [("kind", .text "int"), ("name", .text "int"), ("size_of", .int 4)],
    .make .statement [("kind", .text "COMPOUND_STMT")],
    .make .statement [("kind", .text "COMPOUND_STMT")]]

/-- What is written of an empty block. -/
def blockDocument : Json :=
  .object [("kind", .string "COMPOUND_STMT"), ("spelling", .string ""), ("type", .null),
    ("children", .array [])]

/-- What is written of a function with a name and a type. -/
def functionDocument (name : String) (type : Json) : Json :=
  .object [("name", .string name), ("return_type", type), ("parameters", .array []),
    ("flags", .array []), ("linkage_kind", .string "external"),
    ("storage_qualifier", .string "none")]

/-- What is written of the compilation with two functions. -/
def dollarsDocument : Json :=
  .object [("attributes", .array []), ("classes", .array []), ("enums", .array []),
    ("fields", .array []),
    ("functions", .array [
      functionDocument "$ref" (.object [("$id", .string "1"), ("kind", .string "int"),
        ("size_of", .int 4), ("type_kind", .string "primitive")]),
      functionDocument "$id" (.object [("$ref", .string "1")])]),
    ("typedefs", .array []), ("macros", .array []), ("namespaces", .array []),
    ("function_map", .object [("$ref", .array [blockDocument]), ("$id", .array [blockDocument])])]

/-- The snapshot of the compilation with two functions. -/
def dollarsSnapshot : Snapshot where
  graph := dollars.add (.make .snapshot [("functions", .tuple [.node 1, .node 2]),
    ("function_map", .dict [(.text "$ref", .tuple [.node 4]), (.text "$id", .tuple [.node 5])])])
  root := .node 6
  functionMap := ⟨[(.text "$ref", [.node 4]), (.text "$id", [.node 5])], []⟩

theorem snapshot_dollars : dollars.snapshot (.node 0) = .ok dollarsSnapshot := by
  cbv

theorem encode_dollarsSnapshot :
    dollarsSnapshot.graph.encode .standard dollarsSnapshot.root = .ok dollarsDocument := by
  cbv

theorem isProper_dollars : dollars.IsProper := by
  intro n hn
  obtain rfl | rfl | rfl | rfl | rfl : n = _ ∨ n = _ ∨ n = _ ∨ n = _ ∨ n = _ := by
    simpa [dollars] using hn
  all_goals exact Node.isProper_make _ _

theorem allMaps_dollars (P : List Scalar → Prop) : dollars.AllMaps P (.node 0) := by
  have hnodes (ids : List NodeId) : (Value.list (ids.map .node)).AllMaps P := by
    refine .list fun v hv => ?_
    obtain ⟨id, -, rfl⟩ := List.mem_map.1 hv
    exact .node id
  refine ⟨.node 0, fun n hn => ?_⟩
  obtain rfl | rfl | rfl | rfl | rfl : n = _ ∨ n = _ ∨ n = _ ∨ n = _ ∨ n = _ := by
    simpa [dollars] using hn
  all_goals
    refine Node.allMaps_make (by decide) ?_
    simp only [List.forall_mem_cons, List.not_mem_nil, false_imp_iff, implies_true, and_true]
  · exact ⟨.scalar _, hnodes [1, 2]⟩
  · exact ⟨.scalar _, .node 3, hnodes [4]⟩
  · exact ⟨.scalar _, .node 3, hnodes [5]⟩
  · exact ⟨.scalar _, .scalar _, .scalar _⟩
  · exact .scalar _

/-- The type that the functions share is a node with an identifier and a reference, and it is told
apart from the function map, which has the keys of both. -/
theorem marks_dollars : ∃ sheet : Sheet, sheet.json = dollarsDocument ∧
    Sheet.Shows Entries.ofList dollarsSnapshot.graph .standard [dollarsSnapshot.root] [sheet] ∧
    dollarsDocument.objects = (sheet.parts.filter Sheet.isObject).map Sheet.json ∧
    ∀ u ∈ sheet.parts, dollarsSnapshot.Marks .standard u :=
  encode_marks isProper_dollars (allMaps_dollars _) snapshot_dollars encode_dollarsSnapshot

/-- The object of the function map has the keys of both markers, and is neither a reference nor a
node with an identifier. -/
theorem encode_dollars :
    dollars.snapshot (.node 0) = .ok dollarsSnapshot ∧
      dollarsSnapshot.graph.encode .standard dollarsSnapshot.root = .ok dollarsDocument ∧
      ∃ w, dollarsDocument.at? [8] = some w ∧
        w = .object [(refKey, .array [blockDocument]), (idKey, .array [blockDocument])] ∧
        w.marker? refKey = none ∧ w.marker? idKey = none :=
  ⟨snapshot_dollars, encode_dollarsSnapshot, _, rfl, rfl, rfl, rfl⟩

end Snapshot

end DeclGraph
