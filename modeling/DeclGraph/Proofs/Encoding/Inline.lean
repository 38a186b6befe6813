import DeclGraph.Encoding.Serializer
import DeclGraph.Proofs.Encoding.Resolution
import DeclGraph.Proofs.Projection.Projector

/-!
# Every object carries its projection

Main statement: `Projector.Arises.projects`.  Rules that remember their answers give the same answers
whatever they have been asked and whatever they have encoded before (`Arises.agrees`), and encoding
with them is encoding with the rules alone (`Agrees.encode`).  In a document every object that is
written for a node has the keys that the rules select for its type, in the order of the type, behind
the key of the identifier if the node is shared (`keys_of_encode`).
-/

namespace DeclGraph

open Encoding

/-- The classes of the nodes of a graph. -/
structure Graph.Classes {κ : Type} (schemaOf : κ → Schema) (g : Graph) where
  /-- The class of a node. -/
  of : NodeId → κ
  /-- The class has the schema of the node. -/
  schema : ∀ id, schemaOf (of id) = (g.node id).schema

namespace Projector

variable {κ : Type} [DecidableEq κ] {schemaOf : κ → Schema} {rules : Rules} {p : Projector κ}
  {g : Graph}

/-! ### Encoding with rules that remember -/

namespace Agrees

/-- The fields of a node are those that the rules select. -/
theorem askNode (h : p.Agrees schemaOf rules) (classes : g.Classes schemaOf) (id : NodeId) :
    Gives schemaOf rules (p.ask schemaOf (classes.of id)) (rules.fieldsFor (g.node id).schema) :=
  classes.schema id ▸ h.ask (classes.of id)

theorem visitLoop (h : p.Agrees schemaOf rules) (classes : g.Classes schemaOf) (fuel : Nat)
    (stack : List Value) (visits : List NodeId) :
    Gives schemaOf rules (Projector.visitLoop schemaOf g classes.of fuel p stack visits)
      (Encoding.visitLoop g rules fuel stack visits) := by
  induction fuel generalizing p stack visits with
  | zero => exact ⟨rfl, h⟩
  | succ fuel ih =>
    cases stack with
    | nil => exact ⟨rfl, h⟩
    | cons v stack =>
      cases v with
      | node id =>
        rw [Projector.visitLoop, Encoding.visitLoop]
        split
        · exact ih h _ _
        · -- the class is asked here for the first time, or its answer is remembered
          obtain ⟨q, hq, hagrees⟩ := (h.askNode classes id).exists_eq
          rw [hq, selected]
          cases rules.fieldsFor (g.node id).schema with
          | error e => exact ⟨rfl, hagrees⟩
          | ok names => exact ih hagrees _ _
      | scalar s => exact ih h _ _
      | list items => exact ih h _ _
      | tuple items => exact ih h _ _
      | dict entries => exact ih h _ _
      | foreign t => exact ih h _ _

theorem write (h : p.Agrees schemaOf rules) (classes : g.Classes schemaOf)
    (shared : NodeId → Bool) (e : Emission) (v : Value) (cell : CellId) :
    Gives schemaOf rules (Projector.write schemaOf g classes.of shared p e v cell)
      (Emission.write g rules shared e v cell) := by
  cases v with
  | node id =>
    rw [Projector.write, Emission.write]
    cases Emission.identifier? e.named id with
    | some r => exact ⟨rfl, h⟩
    | none =>
      obtain ⟨q, hq, hagrees⟩ := (h.askNode classes id).exists_eq
      dsimp only
      rw [hq]
      cases rules.fieldsFor (g.node id).schema with
      | error e => exact ⟨rfl, hagrees⟩
      | ok names =>
        dsimp only
        split
        · exact ⟨rfl, hagrees⟩
        · exact ⟨rfl, hagrees⟩
  | scalar s => exact ⟨rfl, h⟩
  | list items => exact ⟨rfl, h⟩
  | tuple items => exact ⟨rfl, h⟩
  | dict entries => exact ⟨rfl, h⟩
  | foreign t => exact ⟨rfl, h⟩

theorem run (h : p.Agrees schemaOf rules) (classes : g.Classes schemaOf) (shared : NodeId → Bool)
    (fuel : Nat) (e : Emission) :
    Gives schemaOf rules (Projector.run schemaOf g classes.of shared fuel p e)
      (Emission.run g rules shared fuel e) := by
  induction fuel generalizing p e with
  | zero => exact ⟨rfl, h⟩
  | succ fuel ih =>
    rw [Projector.run, Emission.run]
    cases e.stack with
    | nil => exact ⟨rfl, h⟩
    | cons top stack =>
      obtain ⟨v, cell⟩ := top
      obtain ⟨q, hq, hagrees⟩ := (h.write classes shared { e with stack } v cell).exists_eq
      dsimp only
      rw [hq]
      cases Emission.write g rules shared { e with stack } v cell with
      | error err => exact ⟨rfl, hagrees⟩
      | ok e => exact ih hagrees e

/-- Encoding comes to what the rules alone make of the graph. -/
theorem encode (h : p.Agrees schemaOf rules) (classes : g.Classes schemaOf) (root : Value) :
    Gives schemaOf rules (Projector.encode schemaOf g classes.of p root) (g.encode rules root) := by
  obtain ⟨q, hq, hagrees⟩ := (h.visitLoop classes (steps g root) [root] []).exists_eq
  rw [Projector.encode, Graph.encode, visits, hq]
  cases Encoding.visitLoop g rules (steps g root) [root] [] with
  | error e => exact ⟨rfl, hagrees⟩
  | ok vs =>
    obtain ⟨q, hq, hagrees⟩ :=
      (hagrees.run classes (isShared vs) (steps g root) (.start root)).exists_eq
    dsimp only
    rw [hq]
    cases Emission.run g rules (isShared vs) (steps g root) (.start root) with
    | error e => exact ⟨rfl, hagrees⟩
    | ok e => exact ⟨rfl, hagrees⟩

end Agrees

/-- Rules that have been made with a blacklist and whitelists, and have then been asked for classes
and used for encoding, in any order. -/
inductive Arises (schemaOf : κ → Schema) (blacklist : List String) (whitelists : Whitelists)
    (known : Entries String κ) : Projector κ → Prop
  /-- The rules are accepted. -/
  | make {p : Projector κ} (h : make? schemaOf blacklist whitelists known = .ok p) :
    Arises schemaOf blacklist whitelists known p
  /-- They are asked for a class. -/
  | ask {p : Projector κ} (h : Arises schemaOf blacklist whitelists known p) (c : κ) :
    Arises schemaOf blacklist whitelists known (p.ask schemaOf c).2
  /-- Something is encoded. -/
  | encode {p : Projector κ} (h : Arises schemaOf blacklist whitelists known p) {g : Graph}
    (classes : g.Classes schemaOf) (root : Value) :
    Arises schemaOf blacklist whitelists known (p.encode schemaOf g classes.of root).2

/-- Whatever has been asked and encoded, what is kept are answers of the rules. -/
theorem Arises.agrees {blacklist : List String} {whitelists : Whitelists}
    {known : Entries String κ} (h : Arises schemaOf blacklist whitelists known p) :
    p.Agrees schemaOf ⟨blacklist, whitelists⟩ := by
  induction h with
  | make h => exact agrees_of_make? h
  | ask _ c ih => exact (ih.ask c).agrees
  | encode _ classes root ih => exact (ih.encode classes root).agrees

end Projector

/-! ### The objects of nodes -/

namespace Encoding

/-- An object that is written for a node tells an identifier just when the node is shared, and has
the selected fields of the node. -/
theorem Drawing.of_inline {g : Graph} {rules : Rules} {shared : NodeId → Bool}
    {S S' : List NodeId} {vs : List Value} {us : List Sheet}
    (h : Drawing g rules shared S vs us S') {id : NodeId} {identifier? : Option String}
    {fields : List (String × Sheet)}
    (hmem : .inline id identifier? fields ∈ us.flatMap Sheet.parts) :
    (identifier?.isSome ↔ shared id = true) ∧
      Entries.keys fields = rules.projection (g.node id).schema := by
  obtain ⟨S₀, v, M, hd, -⟩ := h.of_mem_parts hmem
  cases hd with
  | first unwritten _ parts _ =>
    refine ⟨?_, List.map_fst_zip (by simp [parts.length_eq])⟩
    rw [Emission.identifier?_concat unwritten]
    cases shared id <;> simp

/-- The document shows the root, and every object that is written for a node has the key of an
identifier just if the node is reached more than once, and then the fields that the rules select of
its type, in the order of the type. -/
theorem keys_of_encode {g : Graph} {rules : Rules} {root : Value} {j : Json} (hg : g.IsProper)
    (h : g.encode rules root = .ok j) :
    ∃ sheet : Sheet, sheet.json = j ∧ Sheet.Shows Entries.ofList g rules [root] [sheet] ∧
      ∀ id identifier? fields, .inline id identifier? fields ∈ sheet.parts →
        (identifier?.isSome ↔ ReachedTwice g rules root id) ∧
        ∃ entries, (Sheet.inline id identifier? fields).json = .object entries ∧
          Entries.keys entries = (identifier?.toList.map fun _ => idKey)
            ++ rules.projection (g.node id).schema := by
  obtain ⟨shared, sheet, S, hshared, hd, hjson⟩ := encode_drawn hg h
  refine ⟨sheet, hjson, hd.shows, fun id identifier? fields hmem => ?_⟩
  obtain ⟨hid, hkeys⟩ := hd.of_inline (by simpa using hmem)
  refine ⟨hid.trans (hshared id), _, Sheet.json_inline id identifier? fields, ?_⟩
  rw [← hkeys, Entries.keys, List.map_append, List.map_map, List.map_map]
  rfl

end Encoding

/-- Rules that were accepted give every class the answer that follows from the blacklist and the
whitelists, whatever they were asked and whatever they encoded before; and in every document that
they encode, each object that is written for a node has the key of an identifier just if the node
is shared, and then the selected fields of its class in the order of the class. -/
theorem Projector.Arises.projects {κ : Type} [DecidableEq κ] {schemaOf : κ → Schema}
    {blacklist : List String} {whitelists : Whitelists} {known : Entries String κ}
    {p : Projector κ} (h : Arises schemaOf blacklist whitelists known p) :
    (∀ c, (p.ask schemaOf c).1 = Rules.fieldsFor ⟨blacklist, whitelists⟩ (schemaOf c)) ∧
      (∀ c names, (p.ask schemaOf c).1 = .ok names ↔
        Rules.Fits ⟨blacklist, whitelists⟩ (schemaOf c) ∧
          names = Rules.projection ⟨blacklist, whitelists⟩ (schemaOf c)) ∧
      ∀ (g : Graph) (classes : g.Classes schemaOf) (root : Value) (j : Json), g.IsProper →
        (p.encode schemaOf g classes.of root).1 = .ok j →
        ∃ sheet : Sheet, sheet.json = j ∧
          Sheet.Shows Entries.ofList g ⟨blacklist, whitelists⟩ [root] [sheet] ∧
          ∀ id identifier? fields, .inline id identifier? fields ∈ sheet.parts →
            (identifier?.isSome ↔ ReachedTwice g ⟨blacklist, whitelists⟩ root id) ∧
            ∃ entries, (Sheet.inline id identifier? fields).json = .object entries ∧
              Entries.keys entries = (identifier?.toList.map fun _ => idKey)
                ++ Rules.projection ⟨blacklist, whitelists⟩ (schemaOf (classes.of id)) := by
  have hask (c : κ) : (p.ask schemaOf c).1 = Rules.fieldsFor ⟨blacklist, whitelists⟩ (schemaOf c) :=
    (h.agrees.ask c).result
  refine ⟨hask, fun c names => ?_, fun g classes root j hg hj => ?_⟩
  · rw [hask, Rules.fieldsFor_eq_ok_iff]
  · rw [(h.agrees.encode classes root).result] at hj
    simp only [classes.schema]
    exact keys_of_encode hg hj

/-! ### Two classes of one kind -/

/-- The first two nodes are of two classes of one kind, the third one has a kind without a
whitelist, and the class of the last one lacks a field of the whitelist. -/
def paired : Graph where
  nodes := #[
    ⟨.custom "Left" (some "pair"), [("a", .node 1), ("b", .list [.node 1, .node 2])]⟩,
    ⟨.custom "Right" (some "pair"), [("c", .int 1), ("b", .node 0), ("a", .text "x")]⟩,
    ⟨.custom "Item" none, [("a", .null), ("d", .null)]⟩,
    ⟨.custom "Odd" (some "pair"), [("a", .null)]⟩]

/-- What is written of the classes of one kind. -/
def pairedDocument : Json :=
  .object [("$id", .string "1"),
    ("a", .object [("$id", .string "2"), ("b", .object [("$ref", .string "1")]),
      ("a", .string "x")]),
    ("b", .array [.object [("$ref", .string "2")], .object [("d", .null)]])]

/-- Every node is of a class of its own. -/
def pairedClasses : paired.Classes fun c => (paired.node c).schema := ⟨fun id => id, fun _ => rfl⟩

theorem isProper_paired : paired.IsProper := by
  intro n hn
  obtain rfl | rfl | rfl | rfl : n = _ ∨ n = _ ∨ n = _ ∨ n = _ := by simpa [paired] using hn
  all_goals exact ⟨by decide, by decide, by decide⟩

/-- The whitelist goes before the blacklist, its order and its repetitions count for nothing, and a
class that it does not fit fails after other classes of its kind have been answered. -/
theorem projects_paired : ∃ p, Projector.Arises (fun c => (paired.node c).schema) ["a"]
      [("pair", ["b", "a", "b"])] [("pair", 0)] p ∧
    (p.ask (fun c => (paired.node c).schema) 3).1 = .error (.missingField "pair" "b" ["a"]) ∧
    ∃ sheet : Sheet, sheet.json = pairedDocument ∧
      Sheet.Shows Entries.ofList paired ⟨["a"], [("pair", ["b", "a", "b"])]⟩ [.node 0] [sheet] ∧
      ∀ id identifier? fields, .inline id identifier? fields ∈ sheet.parts →
        (identifier?.isSome ↔
          ReachedTwice paired ⟨["a"], [("pair", ["b", "a", "b"])]⟩ (.node 0) id) ∧
        ∃ entries, (Sheet.inline id identifier? fields).json = .object entries ∧
          Entries.keys entries = (identifier?.toList.map fun _ => idKey)
            ++ Rules.projection ⟨["a"], [("pair", ["b", "a", "b"])]⟩ (paired.node id).schema := by
  have hmake : Projector.make? (fun c => (paired.node c).schema) ["a"]
      [("pair", ["b", "a", "b"])] [("pair", 0)]
      = .ok ⟨⟨["a"], [("pair", ["b", "a", "b"])]⟩, [(0, ["a", "b"])]⟩ := rfl
  have h := ((Projector.Arises.make hmake).ask 3).ask 1
  obtain ⟨hask, -, hencode⟩ := h.projects
  exact ⟨_, h, hask 3, hencode paired pairedClasses (.node 0) pairedDocument isProper_paired rfl⟩

end DeclGraph
