import DeclGraph.Proofs.Graph.Spelling
import DeclGraph.Report

/-!
# How arrays are spelled

`Graph.IsArray g v dims e` says that `v` is an array of `d₁` arrays of `d₂` … of values of the type
`e`, where `dims` are `d₁`, `d₂` and so on, the size that comes first when the array is indexed in
front.  The spelling of a type grows from its element, so every level of the array adds its
brackets behind those of the levels within: the sizes stand behind the element in the order
opposite to that of the indices (`spell_of_isArray`).

What a type is spelled stands in the spelling of every type that it is a part of (`Graph.PartOf`),
in the text of every declaration that mentions it (`Graph.Mentions`), and in the lines that a report
has for these declarations.
-/

namespace DeclGraph

/-! ### Texts in texts -/

/-- A text shows another where that stands in it. -/
def Shows (text part : String) : Prop := ∃ before after, text = before ++ part ++ after

namespace Shows

variable {text part : String}

theorem refl (text : String) : Shows text text := ⟨"", "", by simp⟩

theorem append_left (front : String) (h : Shows text part) : Shows (front ++ text) part := by
  obtain ⟨before, after, rfl⟩ := h
  exact ⟨front ++ before, after, by simp only [String.append_assoc]⟩

theorem append_right (h : Shows text part) (back : String) : Shows (text ++ back) part := by
  obtain ⟨before, after, rfl⟩ := h
  exact ⟨before, after ++ back, by simp only [String.append_assoc]⟩

theorem trans {whole : String} (h : Shows whole text) (h' : Shows text part) :
    Shows whole part := by
  obtain ⟨before, after, rfl⟩ := h
  exact (h'.append_left before).append_right after

/-- A list of texts shows what one of them does. -/
theorem intercalate (separator : String) {texts : List String} (hmem : text ∈ texts)
    (h : Shows text part) : Shows (separator.intercalate texts) part := by
  induction texts with
  | nil => exact absurd hmem List.not_mem_nil
  | cons first rest ih =>
    cases rest with
    | nil =>
      obtain rfl := List.mem_singleton.1 hmem
      rwa [String.intercalate_singleton]
    | cons second rest =>
      rw [String.intercalate_cons_cons]
      rcases List.mem_cons.1 hmem with rfl | hmem
      · rw [String.append_assoc]
        exact h.append_right _
      · exact (ih hmem).append_left _

end Shows

namespace Graph

variable {g : Graph} {id : NodeId} {v w e d c : Value} {t text : String} {dims : List Int}

/-! ### Arrays of arrays -/

/-- An array of arrays, level by level, down to the type of its elements. -/
inductive IsArray (g : Graph) : Value → List Int → Value → Prop
  /-- No level is left. -/
  | element (e : Value) : IsArray g e [] e
  /-- An array of what is left. -/
  | level {id : NodeId} {size : Int} {dims : List Int} {e : Value}
    (hkind : (g.node id).kind? = some .arrayType)
    (hsize : (g.node id).get "size" = .scalar (.int size))
    (hrest : IsArray g ((g.node id).get "element_type") dims e) :
    IsArray g (.node id) (size :: dims) e

/-- How a size is written; an incomplete array has none. -/
def bracket (size : Int) : String := if size < 0 then "[]" else "[" ++ Number.ofInt size ++ "]"

/-- How sizes are written one after another. -/
def brackets : List Int → String
  | [] => ""
  | size :: rest => bracket size ++ brackets rest

theorem brackets_append (dims rest : List Int) :
    brackets (dims ++ rest) = brackets dims ++ brackets rest := by
  induction dims with
  | nil => rw [List.nil_append, brackets, String.empty_append]
  | cons size dims ih => rw [List.cons_append, brackets, brackets, ih, String.append_assoc]

/-- The size of the outermost level comes last. -/
theorem spell_of_isArray (h : IsArray g v dims e) (ht : g.spell e = .ok t) :
    g.spell v = .ok (t ++ brackets dims.reverse) := by
  induction h with
  | element e => rw [ht, List.reverse_nil, brackets, String.append_empty]
  | level hkind hsize hrest ih =>
    rw [spell_array hkind (ih ht), hsize, List.reverse_cons, brackets_append, ← String.append_assoc]
    simp only [brackets, String.append_empty]
    rfl

/-! ### Parts of types -/

/-- A type is a part of another one. -/
inductive PartOf (g : Graph) (v : Value) : Value → Prop
  /-- A type is a part of itself. -/
  | self : PartOf g v v
  /-- The element of a pointer. -/
  | pointer {id : NodeId} (hkind : (g.node id).kind? = some .pointerType)
    (h : PartOf g v ((g.node id).get "element_type")) : PartOf g v (.node id)
  /-- The element of an array. -/
  | array {id : NodeId} (hkind : (g.node id).kind? = some .arrayType)
    (h : PartOf g v ((g.node id).get "element_type")) : PartOf g v (.node id)
  /-- The result of a function. -/
  | result {id : NodeId} (hkind : (g.node id).kind? = some .functionType)
    (h : PartOf g v ((g.node id).get "return_type")) : PartOf g v (.node id)
  /-- The type of a parameter of a function. -/
  | parameter {id : NodeId} {items : List Value} {p w : Value}
    (hkind : (g.node id).kind? = some .functionType)
    (hitems : g.itemsOf ((g.node id).get "parameters") = .ok items) (hp : p ∈ items)
    (hw : g.member p "type" = .ok w) (h : PartOf g v w) : PartOf g v (.node id)

/-- A spelling shows the spellings of the parts. -/
theorem shows_of_partOf (h : PartOf g v w) (hw : g.spell w = .ok text) :
    ∃ t, g.spell v = .ok t ∧ Shows text t := by
  induction h generalizing text with
  | self => exact ⟨text, hw, .refl text⟩
  | pointer hkind _ ih | array hkind _ ih =>
    rw [spell, spellWithin, hkind] at hw
    obtain ⟨element, helement, hw⟩ := exists_of_bind_eq_ok hw
    obtain rfl := Except.ok.inj hw
    obtain ⟨t, ht, hshows⟩ := ih (spell_eq_ok_iff.2 ⟨_, helement⟩)
    exact ⟨t, ht, hshows.append_right _⟩
  | result hkind _ ih =>
    rw [spell, spellWithin, hkind] at hw
    obtain ⟨items, _, hw⟩ := exists_of_bind_eq_ok hw
    obtain ⟨spelled, _, hw⟩ := exists_of_bind_eq_ok hw
    obtain ⟨result, hresult, hw⟩ := exists_of_bind_eq_ok hw
    obtain rfl := Except.ok.inj hw
    obtain ⟨t, ht, hshows⟩ := ih (spell_eq_ok_iff.2 ⟨_, hresult⟩)
    exact ⟨t, ht, ((hshows.append_right _).append_right _).append_right _⟩
  -- every parameter is spelled between the parentheses
  | parameter hkind hitems hp hw' _ ih =>
    rw [spell, spellWithin, hkind] at hw
    obtain ⟨items', hitems', hw⟩ := exists_of_bind_eq_ok hw
    obtain rfl := Except.ok.inj (hitems.symm.trans hitems')
    obtain ⟨spelled, hspelled, hw⟩ := exists_of_bind_eq_ok hw
    obtain ⟨result, _, hw⟩ := exists_of_bind_eq_ok hw
    obtain rfl := Except.ok.inj hw
    obtain ⟨s, hs, hp⟩ := exists_of_mapM_eq_ok hspelled hp
    obtain ⟨w', hw'', hp⟩ := exists_of_bind_eq_ok hp
    obtain rfl := Except.ok.inj (hw'.symm.trans hw'')
    obtain ⟨t, ht, hshows⟩ := ih (spell_eq_ok_iff.2 ⟨_, hp⟩)
    exact ⟨t, ht, ((hshows.intercalate _ hs).append_left _).append_right _⟩

/-! ### Declarations that mention a type -/

/-- A declaration mentions a type in its text. -/
inductive Mentions (g : Graph) (v : Value) : Value → Prop
  /-- A field, in its type. -/
  | field {id : NodeId} (hkind : (g.node id).kind? = some .field)
    (h : PartOf g v ((g.node id).get "type")) : Mentions g v (.node id)
  /-- A defined type, in the type that it stands for. -/
  | typedef {id : NodeId} (hkind : (g.node id).kind? = some .typedef)
    (h : PartOf g v ((g.node id).get "element_type")) : Mentions g v (.node id)
  /-- A parameter, in its type. -/
  | parameter {id : NodeId} (hkind : (g.node id).kind? = some .parameter)
    (h : PartOf g v ((g.node id).get "type")) : Mentions g v (.node id)
  /-- A function, in its result. -/
  | result {id : NodeId} (hkind : (g.node id).kind? = some .function)
    (h : PartOf g v ((g.node id).get "return_type")) : Mentions g v (.node id)
  /-- A function, in a parameter. -/
  | takes {id : NodeId} {items : List Value} {p : Value}
    (hkind : (g.node id).kind? = some .function)
    (hitems : g.itemsOf ((g.node id).get "parameters") = .ok items) (hp : p ∈ items)
    (h : Mentions g v p) : Mentions g v (.node id)
  /-- The definition of a record, in a field. -/
  | holds {id : NodeId} {items : List Value} {f : Value} (hkind : (g.node id).kind? = some .record)
    (hdefinition : ((g.node id).get "is_definition").isTrue)
    (hitems : g.itemsOf ((g.node id).get "fields") = .ok items) (hf : f ∈ items)
    (h : Mentions g v f) : Mentions g v (.node id)

/-- The text of a node is made at some depth. -/
theorem exists_nodeText {n : Nat} (h : g.displayWithin n (.node id) = .ok text) :
    ∃ m, g.nodeTextWithin (m + 1) id = .ok text := by
  obtain _ | _ | n := n
  · exact absurd h (by simp [displayWithin])
  · exact absurd h (by simp [displayWithin, nodeTextWithin])
  · exact ⟨n, h⟩

/-- Storage in front of a text leaves the text. -/
theorem shows_withStorage (storage : Value) (h : Shows text t) :
    Shows (g.withStorage storage text) t := by
  unfold withStorage
  split
  · exact h
  · exact h.append_left _

/-- The text of a field shows the spelling of its type. -/
theorem shows_of_field {n : Nat} (hkind : (g.node id).kind? = some .field)
    (h : g.nodeTextWithin (n + 1) id = .ok text) :
    ∃ type, g.spell ((g.node id).get "type") = .ok type ∧ Shows text type := by
  rw [nodeTextWithin, hkind] at h
  obtain ⟨type, htype, h⟩ := exists_of_bind_eq_ok h
  obtain ⟨name, -, h⟩ := exists_of_bind_eq_ok h
  refine ⟨type, htype, ?_⟩
  have hhead := shows_withStorage (g := g) ((g.node id).get "storage_qualifier")
    (((Shows.refl type).append_right " ").append_right name)
  dsimp only at h
  -- the text goes on with the bits and the initial value, where there are any
  split at h
  · obtain ⟨bits, -, h⟩ := exists_of_bind_eq_ok h
    obtain ⟨head, hbits, h⟩ := exists_of_bind_eq_ok h
    obtain rfl := Except.ok.inj hbits
    replace hhead := (hhead.append_right " : ").append_right bits
    split at h
    · exact Except.ok.inj h ▸ hhead
    · obtain ⟨value, -, h⟩ := exists_of_bind_eq_ok h
      exact Except.ok.inj h ▸ (hhead.append_right " = ").append_right value
  · obtain ⟨head, hsame, h⟩ := exists_of_bind_eq_ok h
    obtain rfl := Except.ok.inj hsame
    split at h
    · exact Except.ok.inj h ▸ hhead
    · obtain ⟨value, -, h⟩ := exists_of_bind_eq_ok h
      exact Except.ok.inj h ▸ (hhead.append_right " = ").append_right value

/-- The text of a function shows the spelling of its result and the texts of its parameters. -/
theorem shows_of_function {n : Nat} (hkind : (g.node id).kind? = some .function)
    (h : g.nodeTextWithin (n + 1) id = .ok text) :
    ∃ items parameters result, g.itemsOf ((g.node id).get "parameters") = .ok items ∧
      items.mapM (g.displayWithin n) = .ok parameters ∧
      g.spell ((g.node id).get "return_type") = .ok result ∧
      Shows text result ∧ ∀ p ∈ parameters, Shows text p := by
  rw [nodeTextWithin, hkind] at h
  obtain ⟨parameters, hparameters, h⟩ := exists_of_bind_eq_ok h
  obtain ⟨items, hitems, hparameters⟩ := exists_of_bind_eq_ok hparameters
  obtain ⟨result, hresult, h⟩ := exists_of_bind_eq_ok h
  obtain ⟨name, -, h⟩ := exists_of_bind_eq_ok h
  obtain rfl := Except.ok.inj h
  -- storage and marker stand in front, and hide nothing
  have hwhole {part : String} {listed : List String}
      (hhead : Shows (result ++ " " ++ name ++ "(" ++ ", ".intercalate listed ++ ")") part) :
      Shows (if hasMarker ((g.node id).get "flags") "inline"
        then "inline" ++ " " ++ g.withStorage ((g.node id).get "storage_qualifier")
          (result ++ " " ++ name ++ "(" ++ ", ".intercalate listed ++ ")")
        else g.withStorage ((g.node id).get "storage_qualifier")
          (result ++ " " ++ name ++ "(" ++ ", ".intercalate listed ++ ")")) part := by
    split
    · exact (shows_withStorage _ hhead).append_left _
    · exact shows_withStorage _ hhead
  refine ⟨items, parameters, result, hitems, hparameters, hresult, hwhole ?_,
    fun p hp => hwhole ?_⟩
  · exact (((((Shows.refl result).append_right _).append_right _).append_right _).append_right
      _).append_right _
  · refine (((Shows.refl p).intercalate _ ?_).append_left _).append_right _
    split
    · exact List.mem_append_left _ hp
    · exact hp

/-- The text of a definition of a record shows the texts of its fields. -/
theorem shows_of_record {n : Nat} (hkind : (g.node id).kind? = some .record)
    (hdefinition : ((g.node id).get "is_definition").isTrue)
    (h : g.nodeTextWithin (n + 1) id = .ok text) :
    ∃ items fields, g.itemsOf ((g.node id).get "fields") = .ok items ∧
      items.mapM (g.displayWithin n) = .ok fields ∧ ∀ f ∈ fields, Shows text f := by
  rw [nodeTextWithin, hkind] at h
  obtain ⟨name, -, h⟩ := exists_of_bind_eq_ok h
  rw [if_pos hdefinition] at h
  obtain ⟨fields, hfields, h⟩ := exists_of_bind_eq_ok h
  obtain ⟨items, hitems, hfields⟩ := exists_of_bind_eq_ok hfields
  obtain rfl := Except.ok.inj h
  refine ⟨items, fields, hitems, hfields, fun f hf => ?_⟩
  have hmem := List.mem_map_of_mem (f := fun f => f ++ ";") hf
  exact ((((Shows.refl f).append_right ";").intercalate _ hmem).append_left _).append_right _

/-- The text of a declaration shows the spelling of a type that it mentions. -/
theorem shows_of_displayWithin (h : Mentions g v d) {n : Nat}
    (hd : g.displayWithin n d = .ok text) : ∃ t, g.spell v = .ok t ∧ Shows text t := by
  induction h generalizing n text with
  | field hkind hpart =>
    obtain ⟨n, hd⟩ := exists_nodeText hd
    obtain ⟨type, htype, hd⟩ := shows_of_field hkind hd
    obtain ⟨t, ht, hshows⟩ := shows_of_partOf hpart htype
    exact ⟨t, ht, hd.trans hshows⟩
  | typedef hkind hpart =>
    obtain ⟨n, hd⟩ := exists_nodeText hd
    rw [nodeTextWithin, hkind] at hd
    obtain ⟨type, htype, hd⟩ := exists_of_bind_eq_ok hd
    obtain ⟨name, -, hd⟩ := exists_of_bind_eq_ok hd
    obtain rfl := Except.ok.inj hd
    obtain ⟨t, ht, hshows⟩ := shows_of_partOf hpart htype
    exact ⟨t, ht, ((hshows.append_right _).append_right _).append_left _⟩
  | parameter hkind hpart =>
    obtain ⟨n, hd⟩ := exists_nodeText hd
    rw [nodeTextWithin, hkind] at hd
    dsimp only at hd
    split at hd
    · obtain ⟨type, htype, hd⟩ := exists_of_bind_eq_ok hd
      obtain ⟨name, -, hd⟩ := exists_of_bind_eq_ok hd
      obtain rfl := Except.ok.inj hd
      obtain ⟨t, ht, hshows⟩ := shows_of_partOf hpart htype
      exact ⟨t, ht, (hshows.append_right _).append_right _⟩
    · exact shows_of_partOf hpart hd
  | result hkind hpart =>
    obtain ⟨n, hd⟩ := exists_nodeText hd
    obtain ⟨_, _, result, -, -, hresult, hd, -⟩ := shows_of_function hkind hd
    obtain ⟨t, ht, hshows⟩ := shows_of_partOf hpart hresult
    exact ⟨t, ht, hd.trans hshows⟩
  -- a function shows its parameters as texts, and these show what they mention
  | takes hkind hitems hp _ ih =>
    obtain ⟨n, hd⟩ := exists_nodeText hd
    obtain ⟨items, parameters, _, hitems', hparameters, -, -, hd⟩ := shows_of_function hkind hd
    obtain rfl := Except.ok.inj (hitems.symm.trans hitems')
    obtain ⟨parameter, hparameter, hp⟩ := exists_of_mapM_eq_ok hparameters hp
    obtain ⟨t, ht, hshows⟩ := ih hp
    exact ⟨t, ht, (hd parameter hparameter).trans hshows⟩
  | holds hkind hdefinition hitems hf _ ih =>
    obtain ⟨n, hd⟩ := exists_nodeText hd
    obtain ⟨items, fields, hitems', hfields, hd⟩ := shows_of_record hkind hdefinition hd
    obtain rfl := Except.ok.inj (hitems.symm.trans hitems')
    obtain ⟨field, hfield, hf⟩ := exists_of_mapM_eq_ok hfields hf
    obtain ⟨t, ht, hshows⟩ := ih hf
    exact ⟨t, ht, (hd field hfield).trans hshows⟩

/-! ### Reports -/

/-- A declaration stands in one of the lists of a compilation that a report shows. -/
def IsReported (g : Graph) (c d : Value) : Prop :=
  ∃ name ∈ ["enums", "functions", "classes", "typedefs"], ∃ list items,
    g.member c name = .ok list ∧ g.itemsOf list = .ok items ∧ d ∈ items

/-- A report has the text of each declaration that it shows. -/
theorem mem_of_describe {lines : List String} {all : Bool}
    (h : g.describe c all true = .ok lines) (hd : g.IsReported c d) :
    ∃ line ∈ lines, g.display d = .ok line := by
  obtain ⟨name, hname, list, items, hlist, hitems, hd⟩ := hd
  unfold describe at h
  obtain ⟨_, -, h⟩ := exists_of_bind_eq_ok h
  obtain ⟨_, -, h⟩ := exists_of_bind_eq_ok h
  obtain ⟨diagnostics, -, h⟩ := exists_of_bind_eq_ok h
  rw [if_pos rfl] at h
  obtain ⟨enums, henums, h⟩ := exists_of_bind_eq_ok h
  obtain ⟨functions, hfunctions, h⟩ := exists_of_bind_eq_ok h
  obtain ⟨classes, hclasses, h⟩ := exists_of_bind_eq_ok h
  obtain ⟨typedefs, htypedefs, h⟩ := exists_of_bind_eq_ok h
  obtain rfl := Except.ok.inj h
  -- every list is written by the same steps
  have hlisting {texts : List String}
      (htexts : (do (← g.itemsOf (← g.member c name)).mapM g.display) = .ok texts) :
      ∃ line ∈ texts, g.display d = .ok line := by
    obtain ⟨_, hlist', htexts⟩ := exists_of_bind_eq_ok htexts
    obtain rfl := Except.ok.inj (hlist.symm.trans hlist')
    obtain ⟨_, hitems', htexts⟩ := exists_of_bind_eq_ok htexts
    obtain rfl := Except.ok.inj (hitems.symm.trans hitems')
    exact exists_of_mapM_eq_ok htexts hd
  simp only [List.mem_cons, List.not_mem_nil, or_false] at hname
  simp only [List.mem_append]
  obtain rfl | rfl | rfl | rfl := hname
  · obtain ⟨line, hline, hd⟩ := hlisting henums
    exact ⟨line, .inl (.inl (.inl (.inr hline))), hd⟩
  · obtain ⟨line, hline, hd⟩ := hlisting hfunctions
    exact ⟨line, .inl (.inl (.inr hline)), hd⟩
  · obtain ⟨line, hline, hd⟩ := hlisting hclasses
    exact ⟨line, .inl (.inr hline), hd⟩
  · obtain ⟨line, hline, hd⟩ := hlisting htypedefs
    exact ⟨line, .inr hline, hd⟩

/-- An array of arrays is spelled as the type of its elements, followed by the sizes from the
innermost level to the outermost one.  The texts of the declarations that mention it show it so, and
so do the lines that a report has for them. -/
theorem spelled_of_isArray (h : IsArray g v dims e) (ht : g.spell e = .ok t) :
    g.spell v = .ok (t ++ brackets dims.reverse) ∧
    (∀ d text, Mentions g v d → g.display d = .ok text →
      Shows text (t ++ brackets dims.reverse)) ∧
    (∀ c all lines, g.describe c all true = .ok lines → ∀ d, g.IsReported c d → Mentions g v d →
      ∃ line ∈ lines, g.display d = .ok line ∧ Shows line (t ++ brackets dims.reverse)) := by
  have hv := spell_of_isArray h ht
  have hshows {d : Value} {text : String} (hmentions : Mentions g v d)
      (hd : g.display d = .ok text) : Shows text (t ++ brackets dims.reverse) := by
    obtain ⟨t', ht', hshows⟩ := shows_of_displayWithin hmentions hd
    exact Except.ok.inj (hv.symm.trans ht') ▸ hshows
  refine ⟨hv, fun _ _ => hshows, fun c all lines hlines d hreported hmentions => ?_⟩
  obtain ⟨line, hline, htext⟩ := mem_of_describe hlines hreported
  exact ⟨line, hline, htext, hshows hmentions htext⟩

end Graph

/-- The graph of `struct board { int cells[2][3]; };`. -/
def board : Graph :=
  ⟨#[.make .primitiveType [("kind", .text "int"), ("name", .text "int")],
    .make .arrayType [("element_type", .node 0), ("size", .int 3)],
    .make .arrayType [("element_type", .node 1), ("size", .int 2)],
    .make .field [("name", .text "cells"), ("type", .node 2), ("parent", .node 4)],
    .make .record [("name", .text "board"), ("fields", .list [.node 3]),
      ("is_definition", .bool true), ("parent", .node 5)],
    .make .compilation [("input_file", .text "board.c"), ("classes", .list [.node 4])]]⟩

/-- The cells are two rows of three numbers. -/
theorem isArray_board : board.IsArray (.node 2) [2, 3] (.node 0) :=
  .level rfl rfl (.level rfl rfl (.element _))

theorem spell_board_int : board.spell (.node 0) = .ok "int" := by
  rfl

theorem mentions_board : board.Mentions (.node 2) (.node 4) :=
  .holds rfl rfl rfl List.mem_cons_self (.field rfl .self)

theorem spelled_of_isArray_board :
    board.spell (.node 2) = .ok ("int" ++ Graph.brackets [3, 2]) ∧
    Shows "struct board { int[3][2] cells; }" ("int" ++ Graph.brackets [3, 2]) := by
  obtain ⟨hspell, htext, -⟩ := Graph.spelled_of_isArray isArray_board spell_board_int
  exact ⟨hspell, htext (.node 4) _ mentions_board (by rfl)⟩

/-- The dimensions of the cells come in the order opposite to that in the declaration. -/
theorem spell_cells :
    board.IsArray (.node 2) [2, 3] (.node 0) ∧ board.spell (.node 0) = .ok "int" ∧
    "int" ++ Graph.brackets [2, 3] = "int[2][3]" ∧ board.spell (.node 2) = .ok "int[3][2]" ∧
    board.describe (.node 5) false true = .ok ["struct board { int[3][2] cells; }"] := by
  refine ⟨isArray_board, spell_board_int, ?_, ?_, ?_⟩
  · decide
  · rfl
  · rfl

end DeclGraph
