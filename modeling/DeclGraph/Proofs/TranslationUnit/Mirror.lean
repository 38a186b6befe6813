import DeclGraph.Proofs.TranslationUnit.Nodes
import DeclGraph.Proofs.TranslationUnit.Reached

/-!
# Nodes that mirror what they were made from

`Stands` says which value stands for a type, `Represents` which node stands for a declaration.
`Mirrors` says, for each sort of origin, what a node that was made from it holds: the data of the
origin, and in every field that refers to another node the one that stands for what the origin
refers to.  All of this stays true while a conversion goes on: a later account `Keeps` the nodes of
an earlier one, up to those that are still being filled (`Mirrors.keep`).
-/

namespace DeclGraph

/-! ### Nodes for some of a list -/

/-- Nodes that stand one by one for those of some items that are asked for. -/
def Picks {α β : Type} (R : β → α → Prop) (P : α → Bool) (ids : List β) (items : List α) : Prop :=
  List.Forall₂ R ids (items.filter P)

namespace Picks

variable {α β : Type} {R R' : β → α → Prop} {P : α → Bool} {ids : List β} {items : List α} {id : β}
  {item : α}

theorem nil : Picks R P [] [] := List.Forall₂.nil

theorem imp (hR : ∀ id item, R id item → R' id item) (h : Picks R P ids items) :
    Picks R' P ids items := List.Forall₂.imp (fun id item => hR id item) h

theorem cons_of_pos (hP : P item) (hid : R id item) (h : Picks R P ids items) :
    Picks R P (id :: ids) (item :: items) := by
  rw [Picks, List.filter_cons_of_pos hP]
  exact .cons hid h

theorem cons_of_neg (hP : ¬P item) (h : Picks R P ids items) : Picks R P ids (item :: items) := by
  rw [Picks, List.filter_cons_of_neg hP]
  exact h

theorem concat_of_pos (hP : P item) (hid : R id item) (h : Picks R P ids items) :
    Picks R P (ids ++ [id]) (items ++ [item]) := by
  rw [Picks, List.filter_append, List.filter_cons_of_pos hP, List.filter_nil]
  exact List.rel_append h (.cons hid .nil)

theorem map {γ : Type} {f : α → γ} {R : β → γ → Prop} {P : γ → Bool}
    (h : Picks (fun id a => R id (f a)) (fun a => P (f a)) ids items) :
    Picks R P ids (items.map f) := by
  rw [Picks, List.filter_map, List.forall₂_map_right_iff]
  exact h

/-- Every node stands for an item. -/
theorem exists_of_mem (h : Picks R P ids items) (hid : id ∈ ids) : ∃ item, R id item := by
  obtain ⟨i, hi, rfl⟩ := List.getElem_of_mem hid
  exact ⟨_, h.get hi (h.length_eq ▸ hi)⟩

/-- Every item that is asked for has a node. -/
theorem exists_of_item (h : Picks R P ids items) (hitem : item ∈ items) (hP : P item) :
    ∃ id ∈ ids, R id item := by
  obtain ⟨i, hi, hget⟩ := List.getElem_of_mem (List.mem_filter.2 ⟨hitem, hP⟩)
  have hlt : i < ids.length := h.length_eq ▸ hi
  refine ⟨ids[i], List.getElem_mem hlt, ?_⟩
  simpa [hget] using h.get hlt hi

theorem concat_of_neg (hP : ¬P item) (h : Picks R P ids items) :
    Picks R P ids (items ++ [item]) := by
  rw [Picks, List.filter_append, List.filter_cons_of_neg hP, List.filter_nil, List.append_nil]
  exact h

end Picks

/-! ### Later accounts -/

namespace Account

/-- What a node is, but for its parent. -/
def Shows (p : Account) (id : NodeId) (n : Node) : Prop := (p.graph.node id).core = n.core

/-- Records that no definition has filled. -/
def unfilled (p : Account) : Set NodeId :=
  {id | (∃ c, p.made id = some (.declaration c .record)) ∧ p.filled id = none}

/-- A later account, in which at most some of the nodes have changed. -/
structure Keeps (X : Set NodeId) (p p' : Account) : Prop where
  size_le : p.graph.size ≤ p'.graph.size
  shape : ∀ id < p.graph.size, (p'.graph.node id).shape = (p.graph.node id).shape
  core : ∀ id < p.graph.size, id ∉ X → (p'.graph.node id).core = (p.graph.node id).core
  made : ∀ id o, p.made id = some o → p'.made id = some o
  made_eq : ∀ id < p.graph.size, p'.made id = p.made id
  filled : ∀ id d, p.filled id = some d → p'.filled id = some d
  filled_eq : ∀ id < p.graph.size, id ∉ X → p'.filled id = p.filled id
  types : ∀ key id, Entries.get? key p.types = some id → Entries.get? key p'.types = some id
  declarations : ∀ key id,
    Entries.get? key p.declarations = some id → Entries.get? key p'.declarations = some id

namespace Keeps

variable {X Y : Set NodeId} {p p₁ p₂ : Account}

theorem refl (X : Set NodeId) (p : Account) : Keeps X p p where
  size_le := le_rfl
  shape _ _ := rfl
  core _ _ _ := rfl
  made _ _ h := h
  made_eq _ _ := rfl
  filled _ _ h := h
  filled_eq _ _ _ := rfl
  types _ _ h := h
  declarations _ _ h := h

/-- What changes later may be new by then. -/
theorem trans (h₁ : Keeps X p p₁) (h₂ : Keeps Y p₁ p₂)
    (hXY : ∀ id ∈ Y, id < p.graph.size → id ∈ X) : Keeps X p p₂ where
  size_le := h₁.size_le.trans h₂.size_le
  shape id hid := (h₂.shape id (hid.trans_le h₁.size_le)).trans (h₁.shape id hid)
  core id hid hX := (h₂.core id (hid.trans_le h₁.size_le) fun hY => hX (hXY id hY hid)).trans
    (h₁.core id hid hX)
  made id o h := h₂.made id o (h₁.made id o h)
  made_eq id hid := (h₂.made_eq id (hid.trans_le h₁.size_le)).trans (h₁.made_eq id hid)
  filled id d h := h₂.filled id d (h₁.filled id d h)
  filled_eq id hid hX := (h₂.filled_eq id (hid.trans_le h₁.size_le) fun hY => hX (hXY id hY hid)).trans
    (h₁.filled_eq id hid hX)
  types key id h := h₂.types key id (h₁.types key id h)
  declarations key id h := h₂.declarations key id (h₁.declarations key id h)

theorem mono (h : Keeps X p p₁) (hXY : X ⊆ Y) : Keeps Y p p₁ :=
  { h with
    core := fun id hid hY => h.core id hid fun hX => hY (hXY hX)
    filled_eq := fun id hid hY => h.filled_eq id hid fun hX => hY (hXY hX) }

/-- An unfilled record was an unfilled record before, if it was there. -/
theorem unfilled (h : Keeps X p p₁) {id : NodeId} (hid : id ∈ p₁.unfilled)
    (hlt : id < p.graph.size) : id ∈ p.unfilled := by
  obtain ⟨⟨c, hmade⟩, hfilled⟩ := hid
  refine ⟨⟨c, (h.made_eq id hlt).symm.trans hmade⟩, ?_⟩
  cases hd : p.filled id with
  | none => rfl
  | some d => exact absurd (h.filled id d hd) (by simp [hfilled])

theorem shows (h : Keeps X p p₁) {id : NodeId} (hid : id < p.graph.size) (hX : id ∉ X) {n : Node} :
    p.Shows id n → p₁.Shows id n := fun hn => (h.core id hid hX).trans hn

end Keeps

end Account

/-! ### What stands for types and declarations -/

section

variable (s : ConversionSetting) (p : Account)

/-- What stands for a declaration; where a record is defined, it is filled. -/
def Represents (c : CursorId) (k : Kind) (id : NodeId) : Prop :=
  Entries.get? (s.unit.cursor c).key p.declarations = some id ∧
    (k = .record → (s.unit.cursor c).isDefinition → (p.filled id).isSome)

/-- What stands for a type. -/
inductive Stands : Option TypeId → Value → Prop
  | nothing : Stands none .null
  | invalid {t : TypeId} (h : (s.unit.type t).kind.shape = .invalid) : Stands (some t) .null
  | elaborated {t : TypeId} {v : Value} (h : (s.unit.type t).kind.shape = .elaborated)
      (hv : Stands (s.unit.type t).namedType? v) : Stands (some t) v
  | declared {t : TypeId} {k : Kind} {id : NodeId} (h : (s.unit.type t).kind.shape.declares? = some k)
      (hid : Represents s p (s.unit.type t).declaration k id) : Stands (some t) (.node id)
  | structural {t : TypeId} {id : NodeId} (h : (s.unit.type t).kind.shape.isStructural)
      (hid : Entries.get? (s.unit.type t).key p.types = some id) : Stands (some t) (.node id)

/-- The node of the extent of a cursor. -/
def IsSpan (c : Cursor) (id : NodeId) : Prop := p.made id = some (.extent c.start c.stop)

/-! ### Declarations -/

/-- What is known of a record from the cursor that was met first. -/
def recordHead (c : Cursor) : List (String × Value) :=
  let sort := if c.kind = .union then "union" else "struct"
  [("name", .text c.ownName), ("class_kind", .text sort), ("type_kind", .text sort),
    ("comment", Convert.commentOf s c)]

/-- The nodes of what is in a record, in the order in which it was met. -/
structure RecordParts where
  fields : List NodeId
  classes : List NodeId
  enums : List NodeId
  attributes : List NodeId

namespace RecordParts

/-- No parts yet. -/
def none : RecordParts := ⟨[], [], [], []⟩

/-- The lists of a record. -/
def entries (m : RecordParts) : List (String × Value) :=
  [("fields", .nodes m.fields), ("classes", .nodes m.classes.eraseDups),
    ("enums", .nodes m.enums.eraseDups), ("attributes", .nodes m.attributes)]

/-- The parts stand for the children of a definition. -/
structure Of (m : RecordParts) (children : List CursorId) : Prop where
  fields : Picks (fun id c => p.made id = some (.field (s.unit.cursor c)))
    (fun c => (s.unit.cursor c).kind == .field) m.fields children
  nodup : m.fields.Nodup
  classes : Picks (fun id c => Represents s p c .record id)
    (fun c => (s.unit.cursor c).kind.isRecord) m.classes children
  enums : Picks (fun id c => Represents s p c .enum id)
    (fun c => (s.unit.cursor c).kind == .enum) m.enums children
  attributes : Picks (fun id c => p.made id = some (.attr (s.unit.cursor c)))
    (fun c => (s.unit.cursor c).kind.isAttribute) m.attributes children

end RecordParts

/-- A record that no definition has filled. -/
def IsUnfilled (c : Cursor) (id : NodeId) : Prop :=
  ∃ span, p.Shows id (.make .record (recordHead s c ++ [("span", .node span)])) ∧ IsSpan p c span

/-- The node of a filled record: its size is that of the definition. -/
def filledRecord (c d : Cursor) (span : NodeId) (m : RecordParts) : Node :=
  .make .record (recordHead s c ++ [("span", .node span), ("is_definition", .bool true),
    ("size_of", .int (s.unit.sizeOf d))] ++ m.entries)

/-- A filled record with some of its parts: its span and its parts are those of the definition. -/
def IsFilled (c d : Cursor) (children : List CursorId) (id : NodeId) : Prop :=
  ∃ span m, p.Shows id (filledRecord s c d span m) ∧ IsSpan p d span ∧ m.Of s p children

/-- A record, named as it was met first. -/
def IsRecord (c : Cursor) (id : NodeId) : Prop :=
  match p.filled id with
  | none => IsUnfilled s p c id
  | some d => IsFilled s p c (s.unit.cursor d) (s.unit.cursor d).children id

/-- An enumeration with some of its constants. -/
def IsEnumOf (c : Cursor) (children : List CursorId) (id : NodeId) : Prop :=
  ∃ span type items, p.Shows id (.make .enum [("name", .text c.ownName),
      ("size_of", .int (s.unit.sizeOf c)), ("is_anonymous", .bool c.isAnonymous),
      ("span", .node span), ("comment", Convert.commentOf s c), ("integer_type", type),
      ("items", .nodes items)]) ∧
    IsSpan p c span ∧ Stands s p c.enumType? type ∧
    Picks (fun id c => p.made id = some (.enumItem (s.unit.cursor c)))
      (fun c => (s.unit.cursor c).kind == .enumConstant) items children ∧ items.Nodup

/-- A defined type. -/
def IsTypedef (c : Cursor) (id : NodeId) : Prop :=
  ∃ span type, p.Shows id (.make .typedef [("name", .text c.spelling),
      ("size_of", .int (s.unit.sizeOf c)), ("span", .node span), ("comment", Convert.commentOf s c),
      ("element_type", type)]) ∧
    IsSpan p c span ∧ Stands s p c.underlyingType? type

/-- A declaration. -/
def IsDeclaration (c : Cursor) (k : Kind) (id : NodeId) : Prop :=
  match k with
  | .record => IsRecord s p c id
  | .enum => IsEnumOf s p c c.children id
  | .typedef => IsTypedef s p c id
  | _ => False

/-! ### Types -/

/-- A type that is no declaration: in it are values for its components, `R` tells which ones, and
nodes for its parameters, `P` tells which ones. -/
def ShowsType (R : Option TypeId → Value → Prop) (P : NodeId → TypeId → Prop) (t : CType)
    (id : NodeId) : Prop :=
  match t.kind.shape with
  | .primitive name => p.Shows id (.make .primitiveType
      [("kind", .text name), ("name", .text t.spelling), ("size_of", .int (max t.size 0))])
  | .pointer => ∃ element, p.Shows id (.make .pointerType
      [("size_of", .int (max t.size 0)), ("element_type", element)]) ∧ R t.pointee? element
  | .array sized => ∃ element, p.Shows id (.make .arrayType
      [("size", .int (if sized then t.elementCount else -1)), ("size_of", .int (max t.size 0)),
        ("element_type", element)]) ∧ R t.elementType? element
  | .function true => ∃ result parameters, p.Shows id (.make .functionType
      [("return_type", result), ("is_variadic", .bool t.isVariadic),
        ("parameters", .nodes parameters)]) ∧
      R t.result? result ∧ List.Forall₂ P parameters t.arguments
  | .function false => ∃ result, p.Shows id (.make .functionType [("return_type", result)]) ∧
      R t.result? result
  | .unexposed => p.Shows id (.make .unexposedType
      [("name", .text t.spelling), ("size_of", .int (max t.size 0))])
  | _ => False

/-- A type that is no declaration, with what stands for its components. -/
def IsType (t : CType) (id : NodeId) : Prop :=
  ShowsType p (Stands s p) (fun id a => p.made id = some (.argument a)) t id

/-! ### Functions and containers -/

/-- A statement with some children. -/
def IsStatementOf (c : Cursor) (children : List NodeId) (id : NodeId) : Prop :=
  ∃ span type, p.Shows id (.make .statement [("kind", .text c.kind.lowerName),
      ("spelling", .text c.spelling), ("type", type), ("children", .nodes children),
      ("span", .node span)]) ∧
    IsSpan p c span ∧ if c.kind.isExpression then Stands s p c.type? type else type = .null

/-- A function with some of its parts; of several bodies the last one stays. -/
def IsFunctionOf (c : Cursor) (children : List CursorTree) (id : NodeId) : Prop :=
  ∃ span result parameters bodies attributes, p.Shows id (.make .function
      [("name", .text c.spelling), ("return_type", result), ("flags", s.unit.markers c),
        ("linkage_kind", .text c.linkage.toLower),
        ("storage_qualifier", .text (storageName c.storage)), ("comment", Convert.commentOf s c),
        ("span", .node span), ("parameters", .nodes parameters),
        ("statements", .nodes (bodies.getLast?.getD [])), ("attributes", .nodes attributes)]) ∧
    IsSpan p c span ∧ Stands s p c.resultType? result ∧
    List.Forall₂ (fun id a => p.made id = some (.parameter (s.unit.cursor a))) parameters
      c.arguments ∧
    Picks (fun ids t => List.Forall₂ (fun id t => p.made id = some (.statement t)) ids t.children)
      (fun t => (s.unit.cursor t.id).kind == .block) bodies children ∧
    Picks (fun id t => p.made id = some (.attr (s.unit.cursor t.id)))
      (fun t => (s.unit.cursor t.id).kind.isAttribute) attributes children

/-- The nodes of what is declared in a container, in the order in which it was met. -/
structure Members where
  classes : List NodeId
  enums : List NodeId
  fields : List NodeId
  functions : List NodeId
  typedefs : List NodeId
  namespaces : List NodeId

namespace Members

/-- No members yet. -/
def none : Members := ⟨[], [], [], [], [], []⟩

/-- The lists of a container. -/
def entries (m : Members) : List (String × Value) :=
  [("classes", .nodes m.classes.eraseDups), ("enums", .nodes m.enums.eraseDups),
    ("fields", .nodes m.fields), ("functions", .nodes m.functions),
    ("typedefs", .nodes m.typedefs.eraseDups), ("namespaces", .nodes m.namespaces)]

/-- The members stand for what trees declare. -/
structure Of (m : Members) (ts : List CursorTree) : Prop where
  classes : Picks (fun id t => Represents s p t.id .record id)
    (fun t => (s.unit.cursor t.id).kind.isRecord) m.classes ts
  enums : Picks (fun id t => Represents s p t.id .enum id)
    (fun t => (s.unit.cursor t.id).kind == .enum) m.enums ts
  fields : Picks (fun id t => p.made id = some (.field (s.unit.cursor t.id)))
    (fun t => (s.unit.cursor t.id).kind == .var) m.fields ts
  functions : Picks (fun id t => p.made id = some (.function t))
    (fun t => (s.unit.cursor t.id).kind == .function) m.functions ts
  typedefs : Picks (fun id t => Represents s p t.id .typedef id)
    (fun t => (s.unit.cursor t.id).kind == .typedef) m.typedefs ts
  namespaces : Picks (fun id t => p.made id = some (.scope t))
    (fun t => (s.unit.cursor t.id).kind == .scope) m.namespaces ts

end Members

/-- What is known of a container apart from its members. -/
inductive Container
  | scope (name : String) (span : NodeId)
  | compilation (source : String) (remarks macros attributes : List NodeId)

/-- The node of a container. -/
def Container.node (m : Members) : Container → Node
  | scope name span => .make .scope ([("name", .text name), ("span", .node span)] ++ m.entries)
  | compilation source remarks macros attributes => .make .compilation
    ([("input_file", .text source), ("diagnostics", .nodes remarks), ("macros", .nodes macros),
      ("attributes", .nodes attributes)] ++ m.entries)

/-- A container with what some trees declare. -/
def Holds (b : Container) (ts : List CursorTree) (id : NodeId) : Prop :=
  ∃ m, p.Shows id (b.node m) ∧ m.Of s p ts

/-- A namespace. -/
def IsScope (c : Cursor) (ts : List CursorTree) (id : NodeId) : Prop :=
  ∃ span, Holds s p (.scope c.spelling span) ts id ∧ IsSpan p c span

/-- A compilation with some of what is at the top. -/
def IsCompilationOf (source : String) (cursors : List CursorId) (id : NodeId) : Prop :=
  ∃ remarks macros attributes,
    Holds s p (.compilation source remarks macros attributes)
      ((cursors.filter s.isVisited).map s.unit.tree) id ∧
    List.Forall₂ (fun id r => p.made id = some (.remark r)) remarks s.unit.remarks ∧
    Picks (fun id c => p.made id = some (.macroDef (s.unit.cursor c)))
      (fun c => (s.unit.cursor c).kind == .definedMacro) macros cursors ∧
    Picks (fun id c => p.made id = some (.attr (s.unit.cursor c)))
      (fun c => (s.unit.cursor c).kind.isAttribute) attributes cursors

/-! ### All sorts of origins -/

/-- A node that is what it was made from. -/
def Mirrors (id : NodeId) : Origin → Prop
  | .place q => p.Shows id (.make .location
      [("file", .text? q.file?), ("line", .int q.line), ("column", .int q.column)])
  | .extent start stop => ∃ first last, p.Shows id (.make .span
        [("start", .node first), ("end", .node last)]) ∧
      p.made first = some (.place start) ∧ p.made last = some (.place stop)
  | .attr c => ∃ span, p.Shows id (.make .attr
        [("name", .text (if c.spelling.isEmpty then attributeName c.kind else c.spelling)),
          ("arguments", .text? (attributeArguments? c.tokens)), ("span", .node span)]) ∧
      IsSpan p c span
  | .macroDef c => ∃ span, p.Shows id (.make .macroDef
        [("name", .text c.spelling),
          ("parameters", match (MacroText.ofTokens c.tokens).parameters? with
            | some names => .list (names.map .text)
            | none => .null),
          ("value", .text (MacroText.ofTokens c.tokens).value), ("span", .node span)]) ∧
      IsSpan p c span
  | .remark r => ∃ location, p.Shows id (.make .diagnostic
        [("severity", .text (if 3 ≤ r.severity then "error" else if r.severity = 2 then "warning"
          else "info")), ("message", .text r.spelling), ("location", location)]) ∧
      if r.location.file?.isSome then
        ∃ place, location = .node place ∧ p.made place = some (.place r.location)
      else location = .null
  | .type t => IsType s p (s.unit.type t) id
  | .argument t => ∃ type, p.Shows id (.make .parameter [("name", .text ""), ("type", type)]) ∧
      Stands s p (some t) type
  | .declaration c k => IsDeclaration s p (s.unit.cursor c) k id
  | .enumItem c => ∃ span, p.Shows id (.make .enumItem [("name", .text c.spelling),
        ("value", .int c.enumValue), ("comment", Convert.commentOf s c), ("span", .node span)]) ∧
      IsSpan p c span
  | .field c => ∃ span type attributes, p.Shows id (.make .field [("name", .text c.spelling),
        ("type", type), ("bit_field_width", .int (c.bitWidth?.getD 0)),
        ("storage_qualifier", .text (storageName c.storage)),
        ("init_value", s.unit.initialValue c), ("comment", Convert.commentOf s c),
        ("span", .node span), ("attributes", .nodes attributes)]) ∧
      IsSpan p c span ∧ Stands s p c.type? type ∧
      Picks (fun id c => p.made id = some (.attr (s.unit.cursor c)))
        (fun c => (s.unit.cursor c).kind.isAttribute) attributes c.children
  | .parameter c => ∃ span type, p.Shows id (.make .parameter [("name", .text c.spelling),
        ("type", type), ("span", .node span)]) ∧
      IsSpan p c span ∧ Stands s p c.type? type
  | .statement t => ∃ children, IsStatementOf s p (s.unit.cursor t.id) children id ∧
      List.Forall₂ (fun id t => p.made id = some (.statement t)) children t.children
  | .function t => IsFunctionOf s p (s.unit.cursor t.id) t.children id
  | .scope t => IsScope s p (s.unit.cursor t.id) t.children id
  | .compilation source => IsCompilationOf s p source s.kept id

end

/-! ### Kinds of nodes -/

/-- The kind of the node of a type that is no declaration. -/
def TypeShape.nodeKind? : TypeShape → Option Kind
  | .primitive _ => some .primitiveType
  | .pointer => some .pointerType
  | .array _ => some .arrayType
  | .function _ => some .functionType
  | .unexposed => some .unexposedType
  | _ => none

/-- The kinds of the nodes of types that are no declarations. -/
def Kind.structural : List Kind :=
  [.primitiveType, .pointerType, .arrayType, .functionType, .unexposedType]

theorem TypeShape.nodeKind?_ne {shape : TypeShape} {k : Kind} (hk : k ∉ Kind.structural) :
    shape.nodeKind? ≠ some k := by
  rintro hshape
  cases shape <;> simp [nodeKind?] at hshape <;> simp [Kind.structural, ← hshape] at hk

/-- The kind of the nodes that are made from an origin. -/
def Origin.kind? (u : TranslationUnit) : Origin → Option Kind
  | .place _ => some .location
  | .extent .. => some .span
  | .attr _ => some .attr
  | .macroDef _ => some .macroDef
  | .remark _ => some .diagnostic
  | .type t => (u.type t).kind.shape.nodeKind?
  | .argument _ | .parameter _ => some .parameter
  | .declaration _ k => some k
  | .enumItem _ => some .enumItem
  | .field _ => some .field
  | .statement _ => some .statement
  | .function _ => some .function
  | .scope _ => some .scope
  | .compilation _ => some .compilation

section

variable {s : ConversionSetting} {p : Account} {id : NodeId}

theorem Account.Shows.shape {n : Node} (h : p.Shows id n) : (p.graph.node id).shape = n.shape := by
  rw [← Node.shape_core, h, Node.shape_core]

theorem ShowsType.shape {R : Option TypeId → Value → Prop} {P : NodeId → TypeId → Prop} {t : CType}
    (h : ShowsType p R P t id) :
    ∃ k, t.kind.shape.nodeKind? = some k ∧ (p.graph.node id).shape = .declared k := by
  unfold ShowsType at h
  cases hshape : t.kind.shape with
  | invalid | elaborated | record | enum | typedef => simp [hshape] at h
  | primitive | unexposed =>
    simp only [hshape] at h
    exact ⟨_, rfl, h.shape⟩
  | pointer | array =>
    simp only [hshape] at h
    obtain ⟨_, h, _⟩ := h
    exact ⟨_, rfl, h.shape⟩
  | function prototyped =>
    cases prototyped with
    | false =>
      simp only [hshape] at h
      obtain ⟨_, h, _⟩ := h
      exact ⟨_, rfl, h.shape⟩
    | true =>
      simp only [hshape] at h
      obtain ⟨_, _, h, _⟩ := h
      exact ⟨_, rfl, h.shape⟩

/-- A node is of the kind that its origin tells. -/
theorem Mirrors.shape {o : Origin} (h : Mirrors s p id o) :
    ∃ k, o.kind? s.unit = some k ∧ (p.graph.node id).shape = .declared k := by
  -- every origin shows some fields, and these name the kind
  cases o with
  | place q => exact ⟨_, rfl, Account.Shows.shape h⟩
  | type t => exact ShowsType.shape h
  | declaration c k =>
    refine ⟨k, rfl, ?_⟩
    cases k <;> simp only [Mirrors, IsDeclaration] at h
    case record =>
      unfold IsRecord at h
      cases hfilled : p.filled id <;> rw [hfilled] at h
      · obtain ⟨_, h, _⟩ := h
        exact h.shape
      · obtain ⟨_, _, h, _⟩ := h
        exact h.shape
    case enum =>
      obtain ⟨_, _, _, h, _⟩ := h
      exact h.shape
    case typedef =>
      obtain ⟨_, _, h, _⟩ := h
      exact h.shape
  | attr | macroDef | remark | argument | enumItem =>
    obtain ⟨_, h, _⟩ := h
    exact ⟨_, rfl, h.shape⟩
  | extent | parameter =>
    obtain ⟨_, _, h, _⟩ := h
    exact ⟨_, rfl, h.shape⟩
  | field =>
    obtain ⟨_, _, _, h, _⟩ := h
    exact ⟨_, rfl, h.shape⟩
  | statement =>
    obtain ⟨_, ⟨_, _, h, _⟩, _⟩ := h
    exact ⟨_, rfl, h.shape⟩
  | function =>
    obtain ⟨_, _, _, _, _, h, _⟩ := h
    exact ⟨_, rfl, h.shape⟩
  | scope =>
    obtain ⟨_, ⟨_, h, _⟩, _⟩ := h
    exact ⟨_, rfl, h.shape⟩
  | compilation =>
    obtain ⟨_, _, _, ⟨_, h, _⟩, _⟩ := h
    exact ⟨_, rfl, h.shape⟩

end

/-! ### What stays -/

section

variable {s : ConversionSetting} {p p' : Account} {X : Set NodeId} {id : NodeId} {c d : Cursor}

open Account

theorem Represents.keep (hk : Keeps X p p') {c : CursorId} {k : Kind} (h : Represents s p c k id) :
    Represents s p' c k id := by
  refine ⟨hk.declarations _ _ h.1, fun hrecord hdef => ?_⟩
  obtain ⟨d, hd⟩ := Option.isSome_iff_exists.1 (h.2 hrecord hdef)
  rw [hk.filled _ _ hd, Option.isSome_some]

theorem Stands.keep (hk : Keeps X p p') {t? : Option TypeId} {v : Value} (h : Stands s p t? v) :
    Stands s p' t? v := by
  induction h with
  | nothing => exact .nothing
  | invalid h => exact .invalid h
  | elaborated h _ ih => exact .elaborated h ih
  | declared h hid => exact .declared h (hid.keep hk)
  | structural h hid => exact .structural h (hk.types _ _ hid)

/-- What nodes were made from stays known. -/
theorem forall₂_keep (hk : Keeps X p p') {α : Type} {o : α → Origin} {ids : List NodeId}
    {items : List α} (h : List.Forall₂ (fun id a => p.made id = some (o a)) ids items) :
    List.Forall₂ (fun id a => p'.made id = some (o a)) ids items :=
  h.imp fun id a => hk.made id (o a)

theorem IsSpan.keep (hk : Keeps X p p') (h : IsSpan p c id) : IsSpan p' c id := hk.made _ _ h

theorem RecordParts.Of.keep (hk : Keeps X p p') {m : RecordParts} {children : List CursorId}
    (h : m.Of s p children) : m.Of s p' children where
  fields := h.fields.imp fun _ _ => hk.made _ _
  nodup := h.nodup
  classes := h.classes.imp fun _ _ => Represents.keep hk
  enums := h.enums.imp fun _ _ => Represents.keep hk
  attributes := h.attributes.imp fun _ _ => hk.made _ _

theorem Members.Of.keep (hk : Keeps X p p') {m : Members} {ts : List CursorTree}
    (h : m.Of s p ts) : m.Of s p' ts where
  classes := h.classes.imp fun _ _ => Represents.keep hk
  enums := h.enums.imp fun _ _ => Represents.keep hk
  fields := h.fields.imp fun _ _ => hk.made _ _
  functions := h.functions.imp fun _ _ => hk.made _ _
  typedefs := h.typedefs.imp fun _ _ => Represents.keep hk
  namespaces := h.namespaces.imp fun _ _ => hk.made _ _

variable (hk : Keeps X p p') (hid : id < p.graph.size) (hX : id ∉ X)

include hk hid hX

theorem IsUnfilled.keep (h : IsUnfilled s p c id) : IsUnfilled s p' c id := by
  obtain ⟨span, hshows, hspan⟩ := h
  exact ⟨span, hk.shows hid hX hshows, hspan.keep hk⟩

theorem IsFilled.keep {children : List CursorId} (h : IsFilled s p c d children id) :
    IsFilled s p' c d children id := by
  obtain ⟨span, m, hshows, hspan, hm⟩ := h
  exact ⟨span, m, hk.shows hid hX hshows, hspan.keep hk, hm.keep hk⟩

theorem IsRecord.keep (h : IsRecord s p c id) : IsRecord s p' c id := by
  rw [IsRecord, hk.filled_eq id hid hX]
  rw [IsRecord] at h
  cases hfilled : p.filled id with
  | none => rw [hfilled] at h; exact h.keep hk hid hX
  | some d => rw [hfilled] at h; exact h.keep hk hid hX

theorem IsEnumOf.keep {children : List CursorId} (h : IsEnumOf s p c children id) :
    IsEnumOf s p' c children id := by
  obtain ⟨span, type, items, hshows, hspan, htype, hitems, hnodup⟩ := h
  exact ⟨span, type, items, hk.shows hid hX hshows, hspan.keep hk, htype.keep hk,
    hitems.imp fun _ _ => hk.made _ _, hnodup⟩

theorem IsTypedef.keep (h : IsTypedef s p c id) : IsTypedef s p' c id := by
  obtain ⟨span, type, hshows, hspan, htype⟩ := h
  exact ⟨span, type, hk.shows hid hX hshows, hspan.keep hk, htype.keep hk⟩

theorem IsDeclaration.keep {k : Kind} (h : IsDeclaration s p c k id) :
    IsDeclaration s p' c k id := by
  unfold IsDeclaration at h ⊢
  split
  · exact IsRecord.keep hk hid hX h
  · exact IsEnumOf.keep hk hid hX h
  · exact IsTypedef.keep hk hid hX h
  · simp_all

theorem IsType.keep {t : CType} (h : IsType s p t id) : IsType s p' t id := by
  have kept : ∀ {n}, p.Shows id n → p'.Shows id n := hk.shows hid hX
  unfold IsType ShowsType at h ⊢
  cases hshape : t.kind.shape with
  | invalid | elaborated | record | enum | typedef => simp [hshape] at h
  | primitive | unexposed => simp only [hshape] at h ⊢; exact kept h
  | pointer | array =>
    simp only [hshape] at h ⊢
    obtain ⟨element, hshows, helement⟩ := h
    exact ⟨element, kept hshows, helement.keep hk⟩
  | function prototyped =>
    cases prototyped with
    | false =>
      simp only [hshape] at h ⊢
      obtain ⟨result, hshows, hresult⟩ := h
      exact ⟨result, kept hshows, hresult.keep hk⟩
    | true =>
      simp only [hshape] at h ⊢
      obtain ⟨result, parameters, hshows, hresult, hparameters⟩ := h
      exact ⟨result, parameters, kept hshows, hresult.keep hk, forall₂_keep hk hparameters⟩

theorem IsStatementOf.keep {children : List NodeId} (h : IsStatementOf s p c children id) :
    IsStatementOf s p' c children id := by
  obtain ⟨span, type, hshows, hspan, htype⟩ := h
  refine ⟨span, type, hk.shows hid hX hshows, hspan.keep hk, ?_⟩
  split_ifs at htype ⊢
  · exact htype.keep hk
  · exact htype

theorem IsFunctionOf.keep {children : List CursorTree} (h : IsFunctionOf s p c children id) :
    IsFunctionOf s p' c children id := by
  obtain ⟨span, result, parameters, bodies, attributes, hshows, hspan, hresult, hparameters,
    hbodies, hattributes⟩ := h
  exact ⟨span, result, parameters, bodies, attributes, hk.shows hid hX hshows, hspan.keep hk,
    hresult.keep hk, forall₂_keep hk hparameters, hbodies.imp fun _ _ => forall₂_keep hk,
    hattributes.imp fun _ _ => hk.made _ _⟩

theorem Holds.keep {b : Container} {ts : List CursorTree} (h : Holds s p b ts id) :
    Holds s p' b ts id := by
  obtain ⟨m, hshows, hm⟩ := h
  exact ⟨m, hk.shows hid hX hshows, hm.keep hk⟩

theorem IsScope.keep {ts : List CursorTree} (h : IsScope s p c ts id) : IsScope s p' c ts id := by
  obtain ⟨span, hholds, hspan⟩ := h
  exact ⟨span, hholds.keep hk hid hX, hspan.keep hk⟩

theorem IsCompilationOf.keep {source : String} {cursors : List CursorId}
    (h : IsCompilationOf s p source cursors id) : IsCompilationOf s p' source cursors id := by
  obtain ⟨remarks, macros, attributes, hholds, hremarks, hmacros, hattributes⟩ := h
  exact ⟨remarks, macros, attributes, hholds.keep hk hid hX, forall₂_keep hk hremarks,
    hmacros.imp fun _ _ => hk.made _ _, hattributes.imp fun _ _ => hk.made _ _⟩

/-- A node that does not change goes on mirroring what it was made from. -/
theorem Mirrors.keep {o : Origin} (h : Mirrors s p id o) : Mirrors s p' id o := by
  have kept : ∀ {n}, p.Shows id n → p'.Shows id n := hk.shows hid hX
  cases o with
  | place q => exact kept h
  | extent start stop =>
    obtain ⟨first, last, hshows, hfirst, hlast⟩ := h
    exact ⟨first, last, kept hshows, hk.made _ _ hfirst, hk.made _ _ hlast⟩
  | attr c | macroDef c | enumItem c =>
    obtain ⟨span, hshows, hspan⟩ := h
    exact ⟨span, kept hshows, hspan.keep hk⟩
  | remark r =>
    obtain ⟨location, hshows, hlocation⟩ := h
    refine ⟨location, kept hshows, ?_⟩
    split_ifs at hlocation ⊢
    · obtain ⟨place, rfl, hplace⟩ := hlocation
      exact ⟨place, rfl, hk.made _ _ hplace⟩
    · exact hlocation
  | type t => exact IsType.keep hk hid hX h
  | argument t =>
    obtain ⟨type, hshows, htype⟩ := h
    exact ⟨type, kept hshows, htype.keep hk⟩
  | declaration c k => exact IsDeclaration.keep hk hid hX h
  | field c =>
    obtain ⟨span, type, attributes, hshows, hspan, htype, hattributes⟩ := h
    exact ⟨span, type, attributes, kept hshows, hspan.keep hk, htype.keep hk,
      hattributes.imp fun _ _ => hk.made _ _⟩
  | parameter c =>
    obtain ⟨span, type, hshows, hspan, htype⟩ := h
    exact ⟨span, type, kept hshows, hspan.keep hk, htype.keep hk⟩
  | statement t =>
    obtain ⟨children, hstatement, hchildren⟩ := h
    exact ⟨children, hstatement.keep hk hid hX, forall₂_keep hk hchildren⟩
  | function t => exact IsFunctionOf.keep hk hid hX h
  | scope t => exact IsScope.keep hk hid hX h
  | compilation source => exact IsCompilationOf.keep hk hid hX h

end

end DeclGraph
