import DeclGraph.Proofs.CommandLine.Preparation
import DeclGraph.Proofs.Encoding.Correspondence
import DeclGraph.Proofs.Projection.Selection

/-!
# Rules that are accepted

Rules are accepted once their whitelists have been checked against the kinds that rules may speak
of, whether they are made or read from a file (`Rules.IsAccepted`).  Whitelists are checked against
a table of kinds, but they are looked up by what a node says of itself.  The two agree: accepted
rules fit every instance of a kind (`Rules.IsAccepted.fits`), and there is no whitelist for the kinds
that are not in the table.

So accepted rules never keep a graph of instances from being written (`Rules.IsAccepted.encode`),
whatever its fields hold; only a value that has no JSON form does.
-/

namespace DeclGraph

/-! ### Instances of kinds -/

/-- A node is an instance of a kind: rules know it by the name of the kind, and it has all fields of
the kind.  It may have others. -/
structure Node.IsInstance (n : Node) (kind : Kind) : Prop where
  /-- Rules know the node by the name of the kind. -/
  kindName_eq : n.shape.kindName = kind.name
  /-- The node has the fields of the kind. -/
  subset : kind.fieldNames ⊆ n.fieldNames

theorem Node.isInstance_make (kind : Kind) (given : List (String × Value)) :
    (Node.make kind given).IsInstance kind where
  kindName_eq := rfl
  subset := (fieldNames_make kind given).symm ▸ List.Subset.refl _

/-- Every node of the graph is an instance of a kind. -/
def Graph.IsDeclared (g : Graph) : Prop := ∀ n ∈ g.nodes.toList, ∃ kind, n.IsInstance kind

theorem Graph.IsDeclared.add {g : Graph} (hg : g.IsDeclared) {n : Node} {kind : Kind}
    (hn : n.IsInstance kind) : (g.add n).IsDeclared := by
  intro m hm
  rw [Graph.add, Array.toList_push] at hm
  rcases List.mem_append.1 hm with hm | hm
  · exact hg m hm
  · obtain rfl := List.mem_singleton.1 hm
    exact ⟨kind, hn⟩

/-- A snapshot is one more instance. -/
theorem Graph.IsDeclared.snapshot {g : Graph} (hg : g.IsDeclared) {compilation : Value}
    {s : Snapshot} (h : g.snapshot compilation = .ok s) : s.graph.IsDeclared := by
  obtain ⟨⟨functions, collections⟩, -, h⟩ := exists_of_bind_eq_ok h
  obtain ⟨functionMap, -, h⟩ := exists_of_bind_eq_ok h
  obtain rfl := Except.ok.inj h
  exact hg.add (Node.isInstance_make .snapshot _)

/-- No two kinds have one name. -/
theorem Kind.eq_of_name_eq {kind kind' : Kind} (h : kind.name = kind'.name) : kind = kind' := by
  have hsome := ofName?_name kind
  rw [h, ofName?_name kind'] at hsome
  exact (Option.some.inj hsome).symm

/-! ### Accepted rules -/

namespace Rules

variable {rules : Rules} {g : Graph} {fuel : Nat}

/-- Rules that were accepted: they were made for the kinds that rules may speak of, or a file was
read. -/
inductive IsAccepted (rules : Rules) : Prop
  /-- The rules were made. -/
  | made {blacklist : List String} {whitelists : Whitelists}
    (make : make? blacklist whitelists standardKinds = .ok rules)
  /-- The rules come from a file. -/
  | loaded {frontEnd : FrontEnd} {w : World} {path : Path}
    (load : ((load path).runIn frontEnd w).1 = .ok rules)

/-- Rules from a file are made of what the file says. -/
theorem exists_make?_of_load {frontEnd : FrontEnd} {w : World} {path : Path}
    (h : ((load path).runIn frontEnd w).1 = .ok rules) :
    ∃ document : RulesDocument, document.rules = .ok rules := by
  obtain ⟨log, hload⟩ := runIn_load frontEnd w path
  rw [hload, FileSystem.rules] at h
  split at h
  · exact absurd h (by simp)
  · split at h
    · exact absurd h (by simp)
    · next document _ =>
      cases hrules : document.rules with
      | error e => rw [hrules] at h; exact absurd h (by simp [Except.mapError])
      | ok made =>
        rw [hrules] at h
        obtain rfl : made = rules := Except.ok.inj h
        exact ⟨document, hrules⟩

namespace IsAccepted

/-- Every whitelist of accepted rules names fields of its kind. -/
theorem exists_kind (h : rules.IsAccepted) {name : String} {whitelist : List String}
    (hlist : Entries.get? name rules.whitelists = some whitelist) :
    ∃ kind ∈ Kind.declarations, kind.name = name ∧ whitelist ⊆ kind.fieldNames := by
  cases h with
  | made hmake => exact (make?_standardKinds_eq_ok_iff.1 hmake).2 name whitelist hlist
  | loaded hload =>
    obtain ⟨document, hmake⟩ := exists_make?_of_load hload
    exact (make?_standardKinds_eq_ok_iff.1 hmake).2 name whitelist hlist

/-- Accepted rules fit every instance of a kind, also of a kind that no whitelist may speak of. -/
theorem fits (h : rules.IsAccepted) {n : Node} {kind : Kind} (hn : n.IsInstance kind) :
    rules.Fits n.schema where
  isNode := rfl
  subset whitelist hlist := by
    -- the table and the node mean the same kind by the name
    obtain ⟨kind', -, hname, hsubset⟩ := h.exists_kind hlist
    obtain rfl := Kind.eq_of_name_eq (hname.trans hn.kindName_eq)
    exact List.Subset.trans hsubset hn.subset

/-- They fit what stands for a node that is not there. -/
theorem fits_absent (h : rules.IsAccepted) : rules.Fits Node.absent.schema where
  isNode := rfl
  subset whitelist hlist := by
    have hnone : ∀ kind ∈ Kind.declarations, kind.name ≠ "object" := by decide
    obtain ⟨kind, hkind, hname, -⟩ := h.exists_kind hlist
    exact absurd hname (hnone kind hkind)

/-- Accepted rules fit every node of a graph of instances. -/
theorem fits_node (h : rules.IsAccepted) (hg : g.IsDeclared) (id : NodeId) :
    rules.Fits (g.node id).schema := by
  rcases g.node_mem_or id with hmem | habsent
  · obtain ⟨kind, hn⟩ := hg _ hmem
    exact h.fits hn
  · rw [habsent]
    exact h.fits_absent

end IsAccepted

end Rules

/-! ### Encoding with rules that fit -/

namespace Encoding

variable {g : Graph} {rules : Rules}

/-- The error is one of a value, not one of the rules. -/
def EncodeError.IsOfValue : EncodeError → Prop
  | .rules _ => False
  | .unencodable _ => True

section

variable (hfits : ∀ id, rules.Fits (g.node id).schema)

include hfits

/-- Counting visits does not fail where the rules fit. -/
theorem exists_visitLoop (fuel : Nat) (stack : List Value) (visits : List NodeId) :
    ∃ vs, visitLoop g rules fuel stack visits = .ok vs := by
  induction fuel generalizing stack visits with
  | zero => exact ⟨visits, rfl⟩
  | succ fuel ih =>
    cases stack with
    | nil => exact ⟨visits, rfl⟩
    | cons v stack =>
      by_cases hv : ∀ id, v ≠ .node id
      · rw [visitLoop_pass hv]
        exact ih _ _
      · push Not at hv
        obtain ⟨id, rfl⟩ := hv
        rw [visitLoop, selected, Rules.fieldsFor_of_fits (hfits id)]
        split
        · exact ih _ _
        · exact ih _ _

theorem failsIn_write (shared : NodeId → Bool) (e : Emission) (v : Value) (cell : CellId) :
    FailsIn EncodeError.IsOfValue (Emission.write g rules shared e v cell) := by
  cases v with
  | scalar s => exact .ok _
  | list items => exact .ok _
  | tuple items => exact .ok _
  | dict entries => exact .ok _
  | foreign typeName => exact .error trivial
  | node id =>
    rw [Emission.write]
    split
    · exact .ok _
    · dsimp only
      rw [Rules.fieldsFor_of_fits (hfits id)]
      dsimp only
      split
      · exact .ok _
      · exact .ok _

theorem failsIn_run (shared : NodeId → Bool) (fuel : Nat) (e : Emission) :
    FailsIn EncodeError.IsOfValue (Emission.run g rules shared fuel e) := by
  induction fuel generalizing e with
  | zero => exact .ok e
  | succ fuel ih =>
    rw [Emission.run]
    split
    · exact .ok e
    · next v cell stack _ =>
      have hwrite := failsIn_write hfits shared { e with stack } v cell
      split
      · exact ih _
      · next err herr => exact .error (hwrite.kind err herr)

/-- Where the rules fit all nodes, encoding fails on account of a value only. -/
theorem failsIn_encode (root : Value) : FailsIn EncodeError.IsOfValue (g.encode rules root) := by
  obtain ⟨vs, hvs⟩ : ∃ vs, visits g rules root = .ok vs := exists_visitLoop hfits _ _ _
  rw [Graph.encode_of_visits hvs]
  exact (failsIn_run hfits _ _ _).map _

end

end Encoding

/-- Accepted rules are never at fault for a graph of instances. -/
theorem Rules.IsAccepted.encode {g : Graph} {rules : Rules} (h : rules.IsAccepted)
    (hg : g.IsDeclared) (root : Value) :
    FailsIn Encoding.EncodeError.IsOfValue (g.encode rules root) :=
  Encoding.failsIn_encode (h.fits_node hg) root

end DeclGraph
