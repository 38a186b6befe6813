import DeclGraph.Proofs.Dictionary
import DeclGraph.Snapshot.FunctionMap

/-!
# What a function map holds

A function counts if it has a name and, besides its parameters, something that stands in it; a
prototype has nothing and a function without a name cannot be found.  `FunctionMap.bodied` lists the
names and bodies of the functions that count.

Main statement: `FunctionMap.ofFunctions_declared`.  Functions always give a map.  Its keys are the
names of those that count, at the places where they first come; each has the body of the last one of
that name, which no prototype replaces; and there is one warning for each of those that count whose
name had come before, in their order.

The map of named bodies is the one that `Entries.ofList` builds, together with the names that come
again (`FunctionMap.ofBodies_ofTexts`): one more body adds an entry or puts its own in the place of
an earlier one, and tells of it in the second case only.
-/

namespace DeclGraph

/-! ### Maps with texts as keys -/

namespace Scalar

variable {α : Type}

/-- A map with texts as keys. -/
def ofTexts (m : Entries String α) : List (Scalar × α) := m.map fun e => (.text e.1, e.2)

theorem ofTexts_append (m m' : Entries String α) : ofTexts (m ++ m') = ofTexts m ++ ofTexts m' :=
  List.map_append

theorem mem_ofTexts {name : String} {v : α} {m : Entries String α} :
    (text name, v) ∈ ofTexts m ↔ (name, v) ∈ m := by
  simp [ofTexts]

theorem sameKey_text (a b : String) : (text a).sameKey (text b) = decide (a = b) := by
  simp [sameKey, asInt?, beq_eq_decide]

theorem hasKey_ofTexts (name : String) (m : Entries String α) :
    hasKey (.text name) (ofTexts m) = decide (name ∈ Entries.keys m) := by
  induction m with
  | nil => rfl
  | cons e rest ih =>
    have hcons : hasKey (.text name) (ofTexts (e :: rest))
        = ((text e.1).sameKey (.text name) || hasKey (.text name) (ofTexts rest)) := rfl
    have hkeys : Entries.keys (e :: rest) = e.1 :: Entries.keys rest := rfl
    rw [hcons, ih, sameKey_text, hkeys, ← Bool.decide_or]
    exact decide_eq_decide.2 (by rw [List.mem_cons, eq_comm])

theorem put_ofTexts (name : String) (v : α) (m : Entries String α) :
    put (.text name) v (ofTexts m) = ofTexts (Entries.put name v m) := by
  induction m with
  | nil => rfl
  | cons e rest ih =>
    have hcons : ofTexts (e :: rest) = (.text e.1, e.2) :: ofTexts rest := rfl
    rw [hcons, put, sameKey_text, ih, Entries.put]
    by_cases h : e.1 = name <;> simp [h, ofTexts]

end Scalar

namespace FunctionMap

variable {g : Graph} {functions : List Value}

/-- Named bodies build the map of their entries, and the names that come again are told apart. -/
theorem ofBodies_ofTexts (bodies : List (String × List Value)) :
    ofBodies (Scalar.ofTexts bodies)
      = ⟨Scalar.ofTexts (Entries.ofList bodies), (repeats (bodies.map Prod.fst)).map .text⟩ := by
  induction bodies using List.reverseRecOn with
  | nil => rfl
  | append_singleton bodies body ih =>
    obtain ⟨name, nodes⟩ := body
    have hlast : ofBodies (Scalar.ofTexts (bodies ++ [(name, nodes)]))
        = (ofBodies (Scalar.ofTexts bodies)).add (.text name) nodes := by
      simp [ofBodies, Scalar.ofTexts, List.foldl_append]
    have hcame : name ∈ Entries.keys (Entries.ofList bodies) ↔ name ∈ bodies.map Prod.fst := by
      rw [Entries.keys_ofList, List.mem_eraseDups]
    rw [hlast, ih, add, Scalar.put_ofTexts, ← Entries.ofList_concat, Scalar.hasKey_ofTexts,
      List.map_append, List.map_singleton, repeats_concat]
    by_cases h : name ∈ bodies.map Prod.fst
    · rw [if_pos (decide_eq_true (hcame.2 h)), if_pos h, List.map_append, List.map_singleton]
    · rw [if_neg (by simpa using hcame.not.2 h), if_neg h]

/-! ### Functions and their bodies -/

/-- A function as it is declared. -/
structure Declared where
  /-- The name, empty where there is none. -/
  name : String
  /-- The parameters, followed by the statements of the body. -/
  children : List Value

/-- What stands in a function besides its parameters. -/
def Declared.body (g : Graph) (d : Declared) : List Value :=
  d.children.filter fun v => !isParameter g v

/-- A value refers to a function: a node of that kind with a text for its name and lists of
parameters and statements. -/
def Declares (g : Graph) (function : Value) (d : Declared) : Prop :=
  ∃ id parameters statements, function = .node id ∧ (g.node id).isKind .function = true ∧
    (g.node id).get? "name" = some (.text d.name) ∧
    ((g.node id).get "parameters").items? = some parameters ∧
    ((g.node id).get "statements").items? = some statements ∧
    d.children = parameters ++ statements

/-- The names and bodies of the functions that have both. -/
def bodied (g : Graph) (declared : List Declared) : List (String × List Value) :=
  (declared.map fun d => (d.name, d.body g)).filter fun b => b.1 ≠ "" ∧ b.2 ≠ []

theorem children_of_declares {function : Value} {d : Declared} (h : Declares g function d) :
    children g function = .ok d.children := by
  obtain ⟨id, parameters, statements, rfl, hkind, -, hparameters, hstatements, hchildren⟩ := h
  simp [children, hkind, Graph.itemsOf, hparameters, hstatements, hchildren, bind, Except.bind,
    pure, Except.pure]

/-- A function gives its name and its body, if it has both. -/
theorem exists_body?_of_declares {function : Value} {d : Declared} (h : Declares g function d) :
    ∃ body, body? g function = .ok body ∧ body.toList = Scalar.ofTexts (bodied g [d]) := by
  have hname : g.member function "name" = .ok (.text d.name) := by
    obtain ⟨id, -, -, rfl, -, hname, -⟩ := h
    rw [Graph.member, hname]
  have hread : body? g function = if !(Value.text d.name).isTrue || (d.body g).isEmpty then .ok none
      else .ok (some (.text d.name, d.body g)) := by
    rw [body?, children_of_declares h]
    simp only [bind, Except.bind, hname]
    rfl
  -- a function is left out if its name or its body is empty
  have hleft : (!(Value.text d.name).isTrue || (d.body g).isEmpty) = true ↔
      ¬ (d.name ≠ "" ∧ d.body g ≠ []) := by
    simp [Value.text, Value.isTrue, Scalar.isTrue, imp_iff_not_or]
  by_cases hcounts : d.name ≠ "" ∧ d.body g ≠ []
  · rw [if_neg fun hskip => hleft.1 hskip hcounts] at hread
    refine ⟨_, hread, ?_⟩
    rw [bodied, List.map_singleton, List.filter_cons_of_pos (by simpa using hcounts)]
    rfl
  · rw [if_pos (hleft.2 hcounts)] at hread
    refine ⟨_, hread, ?_⟩
    rw [bodied, List.map_singleton, List.filter_cons_of_neg (by simpa using hcounts)]
    rfl

/-- Functions give their names and bodies, in order. -/
theorem bodies_of_declares {declared : List Declared}
    (h : List.Forall₂ (Declares g) functions declared) :
    bodies g functions = .ok (Scalar.ofTexts (bodied g declared)) := by
  induction h with
  | nil => rfl
  | @cons function d functions declared hfunction _ ih =>
    obtain ⟨body, hbody, hlist⟩ := exists_body?_of_declares hfunction
    have happend : bodied g (d :: declared) = bodied g [d] ++ bodied g declared :=
      List.filter_append [(d.name, d.body g)] _
    rw [bodies, hbody, ih, happend, Scalar.ofTexts_append, ← hlist]
    rfl

/-! ### The map of functions -/

/-- **What the map of functions holds.**  Its keys are the names of the functions with a name and a
body, each at the place where it first comes, with the body of the last such function of that name.
There is a warning for every function with a name and a body whose name had come before, in their
order: one for each of these functions but one for each key. -/
theorem ofFunctions_declared {declared : List Declared}
    (h : List.Forall₂ (Declares g) functions declared) :
    ∃ m, ofFunctions g functions = .ok m ∧
      m.entries.map Prod.fst = ((bodied g declared).map Prod.fst).eraseDups.map .text ∧
      (∀ name nodes, (Scalar.text name, nodes) ∈ m.entries ↔ ∃ before after,
        bodied g declared = before ++ (name, nodes) :: after ∧ name ∉ after.map Prod.fst) ∧
      logOf g functions = (repeats ((bodied g declared).map Prod.fst)).map (fun name =>
        .warning ("Duplicate function name replaces earlier body (name=" ++ name ++ ")")) ∧
      (logOf g functions).length + m.entries.length = (bodied g declared).length := by
  have hbodies := bodies_of_declares h
  have hmap := ofBodies_ofTexts (bodied g declared)
  -- what is warned of are the repeats of the names, in their order
  have hlog : logOf g functions = (repeats ((bodied g declared).map Prod.fst)).map (fun name =>
      .warning ("Duplicate function name replaces earlier body (name=" ++ name ++ ")")) := by
    rw [logOf, readableBodies_of_bodies hbodies, hmap, log, List.map_map]
    rfl
  have hkeys : (Entries.ofList (bodied g declared)).map Prod.fst
      = ((bodied g declared).map Prod.fst).eraseDups := Entries.keys_ofList _
  refine ⟨_, by rw [ofFunctions, hbodies]; rfl, ?_, fun name nodes => ?_, hlog, ?_⟩
  · rw [hmap, ← hkeys, Scalar.ofTexts, List.map_map, List.map_map]
    rfl
  · rw [hmap]
    exact Scalar.mem_ofTexts.trans Entries.mem_ofList_iff
  · -- every name is either the first of its kind, a key, or one of the repeats
    have hcount := length_repeats_add_length_eraseDups ((bodied g declared).map Prod.fst)
    rw [← hkeys, List.length_map, List.length_map] at hcount
    rw [hlog, hmap, Scalar.ofTexts, List.length_map, List.length_map]
    exact hcount

/-- A prototype, a definition, a function without a name, another function, a second definition of
the first one, and its prototype again; each definition has a parameter too. -/
def redeclared : Graph :=
  let function (name : String) (statements : List NodeId) : Node :=
    .make .function [("name", .text name), ("parameters", .nodes [0]),
      ("statements", .nodes statements)]
  ⟨#[.make .parameter [], .make .statement [], .make .statement [],
    function "f" [], function "f" [1], function "" [1], function "g" [2, 1], function "f" [2],
    function "f" []]⟩

/-- The first function has its second body, which the prototype behind it leaves alone, and stands
in front of the other one; the second definition is warned of. -/
theorem ofFunctions_redeclared :
    let functions : List Value := [.node 3, .node 4, .node 5, .node 6, .node 7, .node 8]
    let declared : List Declared := [⟨"f", [.node 0]⟩, ⟨"f", [.node 0, .node 1]⟩,
      ⟨"", [.node 0, .node 1]⟩, ⟨"g", [.node 0, .node 2, .node 1]⟩, ⟨"f", [.node 0, .node 2]⟩,
      ⟨"f", [.node 0]⟩]
    List.Forall₂ (Declares redeclared) functions declared ∧
      ∃ m, ofFunctions redeclared functions = .ok m ∧
        m.entries.map Prod.fst = [.text "f", .text "g"] ∧
        (.text "f", [.node 2]) ∈ m.entries ∧ (.text "g", [.node 2, .node 1]) ∈ m.entries ∧
        logOf redeclared functions
          = [.warning "Duplicate function name replaces earlier body (name=f)"] := by
  intro functions declared
  have hdeclared : List.Forall₂ (Declares redeclared) functions declared := by
    refine .cons ?_ (.cons ?_ (.cons ?_ (.cons ?_ (.cons ?_ (.cons ?_ .nil)))))
    all_goals exact ⟨_, _, _, rfl, rfl, rfl, rfl, rfl, rfl⟩
  have hbodied : bodied redeclared declared
      = [("f", [.node 1]), ("g", [.node 2, .node 1]), ("f", [.node 2])] := rfl
  obtain ⟨m, hm, hkeys, hentries, hlog, -⟩ := ofFunctions_declared hdeclared
  rw [hbodied] at hkeys hlog
  refine ⟨hdeclared, m, hm, hkeys.trans (by decide), ?_, ?_, hlog.trans (by decide)⟩
  · exact (hentries "f" [.node 2]).2 ⟨[_, _], [], hbodied, by simp⟩
  · exact (hentries "g" [.node 2, .node 1]).2 ⟨[_], [_], hbodied, by simp⟩

end FunctionMap

end DeclGraph
