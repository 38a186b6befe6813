import DeclGraph.Proofs.Graph.Spelling
import DeclGraph.Proofs.TranslationUnit.Families
import DeclGraph.Proofs.TranslationUnit.Mirror
import DeclGraph.Report

/-!
# Texts of graphs with circles

A text is read off a few fields of a node (`Kind.read`), and off the nodes that these lead to.  In a
legible graph they hold what their places ask for (`Graph.Legible`), so no text is refused for what
a value lacks, and only circles are left to be endless.

Graphs do have circles: a record leads to its fields and these to types that point to the record.
But the spelling of a record, an enumeration or a defined type is its name and goes no deeper
(`spellWithin_of_isNamed`).  So it is enough that all ways that avoid these come to an end
(`Graph.Ends`): then there are no circles but through these (`exists_isNamed_of_isCircle`), every
value has a text (`exists_display`), and every compilation has a report (`exists_describe`).
-/

namespace DeclGraph

/-! ### Fields that are read -/

/-- What stands in a field that a text is read off. -/
inductive Content
  /-- Something that leads to no node. -/
  | plain
  /-- Texts, or nothing. -/
  | texts
  /-- A node of one of some kinds, or nothing. -/
  | link (kinds : List Kind)
  /-- Nodes of a kind. -/
  | nodes (kind : Kind)
deriving DecidableEq

/-- The kinds of the nodes in a place. -/
def Content.kinds : Content → List Kind
  | .plain | .texts => []
  | .link kinds => kinds
  | .nodes kind => [kind]

namespace Kind

/-- The kinds of types that are spelled by their name. -/
def named : List Kind := [.record, .enum, .typedef]

/-- The kinds of types. -/
def types : List Kind := structural ++ named

/-- The fields that spellings, texts and reports are read off. -/
def read : Kind → List (String × Content)
  | .primitiveType | .unexposedType => [("name", .plain)]
  | .pointerType => [("element_type", .link types)]
  | .arrayType => [("element_type", .link types), ("size", .plain)]
  | .functionType => [("return_type", .link types), ("parameters", .nodes .parameter)]
  | .location => [("file", .plain), ("line", .plain), ("column", .plain)]
  | .attr => [("name", .plain), ("arguments", .plain)]
  | .enumItem => [("name", .plain), ("value", .plain)]
  | .enum => [("name", .plain), ("items", .nodes .enumItem)]
  | .field =>
    [("name", .plain), ("type", .link types), ("bit_field_width", .plain),
      ("storage_qualifier", .plain), ("init_value", .plain)]
  | .record =>
    [("name", .plain), ("class_kind", .plain), ("fields", .nodes .field), ("is_definition", .plain)]
  | .typedef => [("name", .plain), ("element_type", .link types)]
  | .parameter => [("name", .plain), ("type", .link types)]
  | .function =>
    [("name", .plain), ("return_type", .link types), ("parameters", .nodes .parameter),
      ("flags", .plain), ("storage_qualifier", .plain)]
  | .macroDef => [("name", .plain), ("parameters", .texts), ("value", .plain)]
  | .diagnostic => [("severity", .plain), ("message", .plain), ("location", .link [.location])]
  | .compilation =>
    [("diagnostics", .nodes .diagnostic), ("enums", .nodes .enum), ("functions", .nodes .function),
      ("classes", .nodes .record), ("typedefs", .nodes .typedef)]
  | .span | .statement | .scope | .snapshot => []

end Kind

namespace Value

/-- A value is a node or a list that holds it. -/
def LeadsTo (v : Value) (m : NodeId) : Prop := v = .node m ∨ v.HasNode m

theorem leadsTo_node {id m : NodeId} : (node id).LeadsTo m ↔ m = id := by
  simp [LeadsTo, HasNode, items?, eq_comm]

theorem leadsTo_nodes {ids : List NodeId} {m : NodeId} : (nodes ids).LeadsTo m ↔ m ∈ ids := by
  simp [LeadsTo, HasNode, nodes, items?]

theorem not_leadsTo_scalar (x : Scalar) (m : NodeId) : ¬(scalar x).LeadsTo m := by
  simp [LeadsTo, HasNode, items?]

instance : (v : Value) → (m : NodeId) → Decidable (v.LeadsTo m)
  | .node _, _ => decidable_of_iff _ leadsTo_node.symm
  | .list items, m =>
    decidable_of_iff (Convert.refersTo (.list items) m) (by simp [LeadsTo, refersTo_iff])
  | .tuple items, m =>
    decidable_of_iff (Convert.refersTo (.tuple items) m) (by simp [LeadsTo, refersTo_iff])
  | .scalar _, _ | .dict _, _ | .foreign _, _ => isFalse (by simp [LeadsTo, HasNode, items?])

end Value

theorem Node.isKind_iff {n : Node} {k : Kind} : n.isKind k ↔ n.kind? = some k := by
  rw [isKind, kind?, beq_iff_eq]
  cases n.shape with
  | declared kind => simp
  | custom label kindName? => simp

namespace Graph

variable {g : Graph} {id m : NodeId} {k : Kind} {c : Content} {v : Value} {name : String} {n : Nat}

/-- A value is what its place asks for. -/
def Fits (g : Graph) : Content → Value → Prop
  | .plain, v => ∀ m, ¬v.LeadsTo m
  | .texts, v => v = .null ∨ ∃ names : List String, v = .list (names.map .text)
  | .link kinds, v => v = .null ∨ ∃ m, v = .node m ∧ ∃ k ∈ kinds, (g.node m).isKind k
  | .nodes kind, v => ∃ ids, v = .nodes ids ∧ ∀ m ∈ ids, (g.node m).isKind kind

/-- In all fields that are read stands what their places ask for. -/
def Legible (g : Graph) : Prop :=
  ∀ id k, (g.node id).isKind k → ∀ name c, (name, c) ∈ k.read →
    ∃ v, (g.node id).get? name = some v ∧ g.Fits c v

/-- A node leads to another one, which stands in a field that is read. -/
def Leads (g : Graph) (id m : NodeId) : Prop :=
  ∃ k, (g.node id).isKind k ∧ ∃ e ∈ k.read, ((g.node id).get e.1).LeadsTo m

/-- A record, an enumeration or a defined type. -/
def IsNamed (g : Graph) (id : NodeId) : Prop := ∃ k ∈ Kind.named, (g.node id).isKind k

/-- A node leads to another one that is read for more than its name. -/
def Passes (g : Graph) (id m : NodeId) : Prop := g.Leads id m ∧ ¬g.IsNamed m

/-- Every way from a node comes to an end, or to a record, an enumeration or a defined type. -/
def Ends (g : Graph) : NodeId → Prop := Acc (Function.swap g.Passes)

/-- Nodes each of which leads to the next one, and the last one to the first. -/
def IsCircle (g : Graph) : List NodeId → Prop
  | [] => False
  | first :: rest => (first :: (rest ++ [first])).IsChain g.Leads

instance (g : Graph) (id m : NodeId) : Decidable (g.Leads id m) :=
  decidable_of_iff (∃ k ∈ (g.node id).kind?, ∃ e ∈ k.read, ((g.node id).get e.1).LeadsTo m) <| by
    simp only [Leads, Node.isKind_iff, Option.mem_def]

instance (g : Graph) : DecidablePred g.IsCircle
  | [] => isFalse False.elim
  | first :: rest => inferInstanceAs (Decidable ((first :: (rest ++ [first])).IsChain g.Leads))

/-- On every circle there is a record, an enumeration or a defined type. -/
theorem exists_isNamed_of_isCircle (hends : ∀ id, g.Ends id) {path : List NodeId}
    (h : g.IsCircle path) : ∃ id ∈ path, g.IsNamed id := by
  by_contra hnone
  push Not at hnone
  obtain _ | ⟨first, rest⟩ := path
  · exact h
  have hmem : ∀ id ∈ first :: (rest ++ [first]), id ∈ first :: rest := by simp [or_comm]
  have hchain : (first :: (rest ++ [first])).IsChain (Relation.TransGen g.Passes) :=
    h.imp_of_mem_imp fun id m _ hm hleads => .single ⟨hleads, hnone m (hmem m hm)⟩
  -- the circle could be followed for ever
  have hself : Relation.TransGen (Function.swap g.Passes) first first :=
    Relation.transGen_swap.2 (hchain.rel_cons (by simp))
  exact (WellFounded.intro hends).transGen.irrefl.irrefl first hself

/-! ### What stands in fields -/

/-- A place leads to nodes of the kinds for it. -/
theorem Fits.exists_kind (h : g.Fits c v) (hm : v.LeadsTo m) :
    ∃ k ∈ c.kinds, (g.node m).isKind k := by
  cases c with
  | plain => exact absurd hm (h m)
  | texts =>
    rcases h with rfl | ⟨names, rfl⟩
    · exact absurd hm (Value.not_leadsTo_scalar _ m)
    · simp [Value.LeadsTo, Value.HasNode, Value.items?, Value.text] at hm
  | link kinds =>
    rcases h with rfl | ⟨m', rfl, h⟩
    · exact absurd hm (Value.not_leadsTo_scalar _ m)
    · exact Value.leadsTo_node.1 hm ▸ h
  | nodes kind =>
    obtain ⟨ids, rfl, hids⟩ := h
    exact ⟨kind, List.mem_singleton_self _, hids m (Value.leadsTo_nodes.1 hm)⟩

namespace Legible

variable (h : g.Legible) (hid : (g.node id).isKind k)

include h hid

theorem fits (hc : (name, c) ∈ k.read) : g.Fits c ((g.node id).get name) := by
  obtain ⟨v, hv, hfits⟩ := h id k hid name c hc
  rwa [Node.get, hv]

theorem member_eq (hc : (name, c) ∈ k.read) :
    g.member (.node id) name = .ok ((g.node id).get name) := by
  obtain ⟨v, hv, -⟩ := h id k hid name c hc
  rw [member, Node.get, hv]
  rfl

/-- A list of nodes that is read. -/
theorem exists_items {kind : Kind} (hc : (name, .nodes kind) ∈ k.read) :
    ∃ items, g.itemsOf ((g.node id).get name) = .ok items ∧
      ∀ item ∈ items, ∃ m, item = .node m ∧ (g.node m).isKind kind ∧ g.Leads id m := by
  obtain ⟨ids, hids, hkinds⟩ := h.fits hid hc
  refine ⟨ids.map .node, by rw [hids]; rfl, fun item hitem => ?_⟩
  obtain ⟨m, hm, rfl⟩ := List.mem_map.1 hitem
  refine ⟨m, rfl, hkinds m hm, k, hid, _, hc, .inr ?_⟩
  rwa [hids, Value.hasNode_nodes]

/-- One step for each member of a list of nodes that is read. -/
theorem exists_mapM {β : Type} {kind : Kind} {f : Value → Except TextError β}
    (hc : (name, .nodes kind) ∈ k.read)
    (hf : ∀ m, (g.node m).isKind kind → g.Leads id m → ∃ b, f (.node m) = .ok b) :
    ∃ bs, (do (← g.itemsOf ((g.node id).get name)).mapM f) = .ok bs := by
  obtain ⟨items, hitems, hkinds⟩ := h.exists_items hid hc
  rw [hitems]
  refine exists_mapM_eq_ok fun item hitem => ?_
  obtain ⟨m, rfl, hm, hleads⟩ := hkinds item hitem
  exact hf m hm hleads

/-- What leads to no node has a text. -/
theorem exists_displayWithin (n : Nat) (hc : (name, .plain) ∈ k.read) :
    ∃ t, g.displayWithin (n + 1) ((g.node id).get name) = .ok t := by
  have hfits := h.fits hid hc
  cases hv : (g.node id).get name with
  | node m => exact absurd (.inl hv) (hfits m)
  | _ => exact ⟨_, rfl⟩

end Legible

/-! ### Spellings -/

/-- A value has a spelling. -/
def IsSpelled (g : Graph) (v : Value) : Prop := ∃ t, g.spell v = .ok t

/-- The spelling of a record, an enumeration or a defined type does not go any deeper. -/
theorem spellWithin_of_isNamed (h : g.IsNamed id) :
    ∃ t, ∀ depth, g.spellWithin (depth + 1) (.node id) = .ok t := by
  obtain ⟨k, hk, hid⟩ := h
  rw [Node.isKind_iff] at hid
  simp only [Kind.named, List.mem_cons, List.not_mem_nil, or_false] at hk
  obtain rfl | rfl | rfl := hk
  all_goals exact ⟨_, fun depth => by rw [spellWithin, hid]⟩

theorem isSpelled_of_isNamed (h : g.IsNamed id) : g.IsSpelled (.node id) := by
  obtain ⟨t, ht⟩ := spellWithin_of_isNamed h
  exact ⟨t, ht _⟩

/-- A type is spelled if the types that it is made of are. -/
theorem Legible.isSpelled (h : g.Legible) (hid : (g.node id).isKind k) (hk : k ∈ Kind.types)
    (hlinks : ∀ name, (name, .link Kind.types) ∈ k.read → g.IsSpelled ((g.node id).get name))
    (hparameters : ∀ m, g.Leads id m → (g.node m).isKind .parameter →
      g.IsSpelled ((g.node m).get "type")) : g.IsSpelled (.node id) := by
  have hkind := Node.isKind_iff.1 hid
  -- one level above the parts
  suffices hs : ∃ t, g.spellWithin (g.size + 3) (.node id) = .ok t from
    hs.imp fun t ht => spell_eq_ok_iff.2 ⟨_, ht⟩
  rw [spellWithin, hkind]
  cases k with
  | primitiveType | unexposedType | record | enum | typedef => exact ⟨_, rfl⟩
  | pointerType | arrayType =>
    exact exists_bind_eq_ok (hlinks "element_type" (by decide)) fun _ => ⟨_, rfl⟩
  | functionType =>
    have hread : ("parameters", .nodes .parameter) ∈ Kind.functionType.read := by decide
    obtain ⟨items, hitems, hkinds⟩ := h.exists_items hid hread
    have htype : ("type", .link Kind.types) ∈ Kind.parameter.read := by decide
    have htypes : ∃ ts, (items.mapM fun item => do
        g.spellWithin (g.size + 2) (← g.member item "type")) = .ok ts := by
      refine exists_mapM_eq_ok fun item hitem => ?_
      obtain ⟨m, rfl, hm, hleads⟩ := hkinds item hitem
      exact exists_bind_of_eq_ok (h.member_eq hm htype) (hparameters m hleads hm)
    exact exists_bind_of_eq_ok hitems (exists_bind_eq_ok htypes fun _ =>
      exists_bind_eq_ok (hlinks "return_type" (by decide)) fun _ => ⟨_, rfl⟩)
  | _ => exact absurd hk (by decide)

/-- Where ways come to an end, types have spellings, and so have those that a node mentions. -/
theorem Legible.isSpelled_of_ends (h : g.Legible) (hends : g.Ends id) (hid : (g.node id).isKind k) :
    (k ∈ Kind.types → g.IsSpelled (.node id)) ∧
      ∀ name, (name, .link Kind.types) ∈ k.read → g.IsSpelled ((g.node id).get name) := by
  induction hends generalizing k with
  | intro id _ ih =>
    have hlinks : ∀ name, (name, .link Kind.types) ∈ k.read →
        g.IsSpelled ((g.node id).get name) := by
      intro name hname
      rcases h.fits hid hname with hnull | ⟨m, hnode, k', hk', hm⟩
      · exact ⟨"void", by rw [hnull]; rfl⟩
      · rw [hnode]
        by_cases hnamed : g.IsNamed m
        · exact isSpelled_of_isNamed hnamed
        · exact (ih m ⟨⟨k, hid, _, hname, .inl hnode⟩, hnamed⟩ hm).1 hk'
    refine ⟨fun hk => h.isSpelled hid hk hlinks fun m hleads hm => ?_, hlinks⟩
    -- a parameter is no type, so its type is two steps away
    have hpasses : g.Passes id m := by
      refine ⟨hleads, ?_⟩
      rintro ⟨k', hk', hm'⟩
      exact absurd (Node.eq_of_isKind hm hm' ▸ hk') (by decide)
    exact (ih m hpasses hm).2 "type" (by decide)

/-! ### Texts -/

section

variable (h : g.Legible) (hends : ∀ id, g.Ends id)

include h hends

theorem exists_spell (hid : (g.node id).isKind k) (hc : (name, .link Kind.types) ∈ k.read) :
    g.IsSpelled ((g.node id).get name) :=
  (h.isSpelled_of_ends (hends id) hid).2 name hc

/-- A node that lists no parts has a text. -/
theorem exists_nodeTextWithin_leaf (hid : (g.node id).isKind k)
    (hk : k ∉ [.enum, .record, .function]) (n : Nat) :
    ∃ t, g.nodeTextWithin (n + 2) id = .ok t := by
  have hkind := Node.isKind_iff.1 hid
  have text {name : String} (hc : (name, .plain) ∈ k.read) :
      ∃ t, g.displayWithin (n + 1) ((g.node id).get name) = .ok t :=
    h.exists_displayWithin hid n hc
  have spelling {name : String} (hc : (name, .link Kind.types) ∈ k.read) :
      ∃ t, g.spell ((g.node id).get name) = .ok t := exists_spell h hends hid hc
  rw [nodeTextWithin, hkind]
  cases k with
  | attr =>
    dsimp only
    split
    · exact exists_bind_eq_ok (text (by decide)) fun _ =>
        exists_bind_eq_ok (text (by decide)) fun _ => ⟨_, rfl⟩
    · exact exists_bind_eq_ok (text (by decide)) fun _ => ⟨_, rfl⟩
  | enumItem =>
    exact exists_bind_eq_ok (text (by decide)) fun _ =>
      exists_bind_eq_ok (text (by decide)) fun _ => ⟨_, rfl⟩
  | field =>
    refine exists_bind_eq_ok (spelling (by decide)) fun _ =>
      exists_bind_eq_ok (text (by decide)) fun _ => ?_
    extract_lets declared stored next
    -- with bits or without them, an initial value may follow
    have initial : ∀ head, ∃ t, next head = .ok t := by
      intro head
      dsimp only [next]
      split
      · exact ⟨_, rfl⟩
      · exact exists_bind_eq_ok (text (by decide)) fun _ => ⟨_, rfl⟩
    split
    · exact exists_bind_eq_ok (text (by decide)) fun _ => initial _
    · exact initial _
  | typedef =>
    exact exists_bind_eq_ok (spelling (by decide)) fun _ =>
      exists_bind_eq_ok (text (by decide)) fun _ => ⟨_, rfl⟩
  | parameter =>
    dsimp only
    split
    · exact exists_bind_eq_ok (spelling (by decide)) fun _ =>
        exists_bind_eq_ok (text (by decide)) fun _ => ⟨_, rfl⟩
    · exact spelling (by decide)
  | macroDef =>
    refine exists_bind_eq_ok (text (by decide)) fun _ => ?_
    have hread : ("parameters", .texts) ∈ Kind.macroDef.read := by decide
    rcases h.fits hid hread with hnull | ⟨names, hnames⟩
    · rw [hnull]
      exact exists_bind_eq_ok ⟨_, rfl⟩ fun _ =>
        exists_bind_eq_ok (text (by decide)) fun _ => ⟨_, rfl⟩
    · have items : ∃ ts, (do
          let parameters ← g.itemsOf ((g.node id).get "parameters")
          parameters.mapM (g.displayWithin (n + 1))) = .ok ts := by
        rw [hnames]
        refine exists_mapM_eq_ok fun item hitem => ?_
        obtain ⟨s, -, rfl⟩ := List.mem_map.1 hitem
        exact ⟨s, rfl⟩
      rw [hnames]
      exact exists_bind_eq_ok items fun _ => exists_bind_eq_ok ⟨_, rfl⟩ fun _ =>
        exists_bind_eq_ok (text (by decide)) fun _ => ⟨_, rfl⟩
  | diagnostic =>
    refine exists_bind_eq_ok (text (by decide)) fun _ =>
      exists_bind_eq_ok (text (by decide)) fun _ => ?_
    have hread : ("location", .link [.location]) ∈ Kind.diagnostic.read := by decide
    rcases h.fits hid hread with hnull | ⟨m, hnode, k', hk', hm⟩
    · rw [hnull]
      exact ⟨_, rfl⟩
    · rw [hnode]
      obtain rfl := List.mem_singleton.1 hk'
      -- what follows gets the text of a part of the place
      have part {name : String} (hc : (name, .plain) ∈ Kind.location.read)
          {f : String → Except TextError String} (hf : ∀ t, ∃ r, f t = .ok r) :
          ∃ r, (do f (← g.displayWithin (n + 1) (← g.member (.node m) name))) = .ok r :=
        exists_bind_of_eq_ok (h.member_eq hm hc)
          (exists_bind_eq_ok (h.exists_displayWithin hm n hc) hf)
      exact part (by decide) fun _ => part (by decide) fun _ => part (by decide) fun _ => ⟨_, rfl⟩
  | enum | record | function => exact absurd (by decide) hk
  | _ => exact ⟨_, rfl⟩

/-- A node has a text. -/
theorem exists_nodeTextWithin (hid : (g.node id).isKind k) (n : Nat) :
    ∃ t, g.nodeTextWithin (n + 4) id = .ok t := by
  have hkind := Node.isKind_iff.1 hid
  have text {name : String} (hc : (name, .plain) ∈ k.read) :
      ∃ t, g.displayWithin (n + 3) ((g.node id).get name) = .ok t :=
    h.exists_displayWithin hid (n + 2) hc
  have texts (name : String) (kind : Kind) (hc : (name, .nodes kind) ∈ k.read)
      (hleaf : kind ∉ [.enum, .record, .function]) :
      ∃ ts, (do (← g.itemsOf ((g.node id).get name)).mapM (g.displayWithin (n + 3))) = .ok ts :=
    h.exists_mapM hid hc fun m hm _ => exists_nodeTextWithin_leaf h hends hm hleaf n
  -- only these three kinds have the texts of other nodes in theirs
  by_cases hk : k ∈ [.enum, .record, .function]
  · rw [nodeTextWithin, hkind]
    simp only [List.mem_cons, List.not_mem_nil, or_false] at hk
    obtain rfl | rfl | rfl := hk
    · exact exists_bind_eq_ok (texts "items" .enumItem (by decide) (by decide)) fun _ =>
        exists_bind_eq_ok (text (by decide)) fun _ => ⟨_, rfl⟩
    · refine exists_bind_eq_ok (isSpelled_of_isNamed ⟨_, by decide, hid⟩) fun _ => ?_
      split
      · exact exists_bind_eq_ok (texts "fields" .field (by decide) (by decide)) fun _ => ⟨_, rfl⟩
      · exact ⟨_, rfl⟩
    · exact exists_bind_eq_ok (texts "parameters" .parameter (by decide) (by decide)) fun _ =>
        exists_bind_eq_ok (exists_spell h hends hid (by decide)) fun _ =>
        exists_bind_eq_ok (text (by decide)) fun _ => ⟨_, rfl⟩
  · exact exists_nodeTextWithin_leaf h hends hid hk (n + 2)

/-- Every value has a text. -/
theorem exists_display (v : Value) : ∃ t, g.display v = .ok t := by
  cases v with
  | node id =>
    cases hkind : (g.node id).kind? with
    | none =>
      refine ⟨g.shown (.node id), ?_⟩
      rw [display, displayWithin, nodeTextWithin, hkind]
    | some k =>
      have hid := Node.isKind_iff.2 hkind
      -- there is a node, so the depth is at least six
      have hlt : id < g.size := lt_size_of_node_ne fun habsent => by
        rw [habsent] at hkind
        exact absurd hkind (by simp [Node.kind?, Node.absent])
      have hsize : 0 < g.size := Nat.zero_lt_of_lt hlt
      obtain ⟨n, hn⟩ := Nat.exists_eq_add_of_le' (show 5 ≤ 2 * g.size + 4 by omega)
      rw [display, hn]
      exact exists_nodeTextWithin h hends hid n
  | _ => exact ⟨_, rfl⟩

end

/-! ### Reports -/

/-- Whether a diagnostic is an error is known. -/
theorem Legible.exists_isError (h : g.Legible) (hid : (g.node id).isKind .diagnostic) :
    ∃ b, g.isError (.node id) = .ok b := by
  have hread : ("severity", .plain) ∈ Kind.diagnostic.read := by decide
  refine exists_bind_of_eq_ok (h.member_eq hid hread) ?_
  split
  · exact ⟨_, rfl⟩
  · exact ⟨_, rfl⟩

section

variable (h : g.Legible) (hends : ∀ id, g.Ends id)

include h hends

theorem exists_diagnosticLines (all : Bool) {items : List Value}
    (hitems : ∀ item ∈ items, ∃ m, item = .node m ∧ (g.node m).isKind .diagnostic) :
    ∃ lines, g.diagnosticLines all items = .ok lines := by
  induction items with
  | nil => exact ⟨[], rfl⟩
  | cons item rest ih =>
    obtain ⟨⟨m, rfl, hm⟩, hrest⟩ := List.forall_mem_cons.1 hitems
    obtain ⟨t, ht⟩ := exists_display h hends (.node m)
    have next (line? : Option String) :
        ∃ lines, (do return line?.toList ++ (← g.diagnosticLines all rest)) = .ok lines :=
      exists_bind_eq_ok (ih hrest) fun _ => ⟨_, rfl⟩
    rw [diagnosticLines, ht]
    split
    · exact next (some t)
    · refine exists_bind_eq_ok (h.exists_isError hm) fun _ => ?_
      split
      · exact next (some t)
      · exact next none

/-- Every compilation has a report. -/
theorem exists_describe (hid : (g.node id).isKind .compilation) (warnings info : Bool) :
    ∃ lines, g.describe (.node id) warnings info = .ok lines := by
  have listing (name : String) (kind : Kind) (hc : (name, .nodes kind) ∈ Kind.compilation.read) :
      ∃ ts, (do (← g.itemsOf (← g.member (.node id) name)).mapM g.display) = .ok ts := by
    rw [h.member_eq hid hc]
    exact h.exists_mapM hid hc fun m _ _ => exists_display h hends (.node m)
  have hread : ("diagnostics", .nodes .diagnostic) ∈ Kind.compilation.read := by decide
  obtain ⟨items, hitems, hkinds⟩ := h.exists_items hid hread
  obtain ⟨diagnostics, hdiagnostics⟩ := exists_diagnosticLines h hends warnings fun item hitem =>
    (hkinds item hitem).imp fun m hm => ⟨hm.1, hm.2.1⟩
  refine exists_bind_of_eq_ok (h.member_eq hid hread) (exists_bind_of_eq_ok hitems ?_)
  refine exists_bind_of_eq_ok hdiagnostics ?_
  split
  · exact exists_bind_eq_ok (listing "enums" .enum (by decide)) fun _ =>
      exists_bind_eq_ok (listing "functions" .function (by decide)) fun _ =>
      exists_bind_eq_ok (listing "classes" .record (by decide)) fun _ =>
      exists_bind_eq_ok (listing "typedefs" .typedef (by decide)) fun _ => ⟨_, rfl⟩
  · exact ⟨_, rfl⟩

end

end Graph

end DeclGraph
