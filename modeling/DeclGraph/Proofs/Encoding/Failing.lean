import DeclGraph.Batch.Phase
import DeclGraph.Proofs.Encoding.Correspondence
import DeclGraph.Proofs.Encoding.Emission

/-!
# When encoding fails

`Meets` says which values encoding comes across: the root, the parts of what it comes across, and
the values in the selected fields of the nodes.  `DepthFirst` lists them as a recursive walk would,
each node with its fields where it is first met.

`encode_fails` says when encoding fails, and how.  Counting visits finds a node that the rules do
not fit, if there is one (`visitLoop_outcome`), so such a fault is always told first.  If there is
none, the loop that writes meets the values in the order of the list, and stops at the first one
that has no JSON form (`DepthFirst.run`).
-/

namespace DeclGraph

open Encoding

/-! ### Rules that do not fit -/

/-- The rules do not fit a node: the whitelist for its kind names a field that the node lacks. -/
def Rules.Misfits (rules : Rules) (n : Node) : Prop :=
  ∃ whitelist, Entries.get? n.shape.kindName rules.whitelists = some whitelist ∧
    ∃ name ∈ whitelist, name ∉ n.fieldNames

/-- There is an error exactly if the rules do not fit. -/
theorem Rules.misfits_iff {rules : Rules} {n : Node} :
    rules.Misfits n ↔ ∃ e, rules.fieldsFor n.schema = .error e := by
  unfold Rules.Misfits Rules.fieldsFor Node.schema
  dsimp only
  cases Entries.get? n.shape.kindName rules.whitelists with
  | none => simp
  | some whitelist =>
    dsimp only
    cases hfind : whitelist.find? fun name => !n.fieldNames.contains name with
    | none =>
      simp only [List.find?_eq_none, Bool.not_eq_eq_eq_not, Bool.not_true, Bool.not_eq_false,
        List.contains_iff_mem] at hfind
      simpa using hfind
    | some name =>
      refine iff_of_true ⟨whitelist, rfl, name, List.mem_of_find?_eq_some hfind, ?_⟩ ⟨_, rfl⟩
      simpa using List.find?_some hfind

theorem Rules.exists_fieldsFor {rules : Rules} {n : Node} (h : ¬ rules.Misfits n) :
    ∃ names, rules.fieldsFor n.schema = .ok names := by
  cases hn : rules.fieldsFor n.schema with
  | ok names => exact ⟨names, rfl⟩
  | error e => exact absurd (Rules.misfits_iff.2 ⟨e, hn⟩) h

/-- The name of the type of a value that has no JSON form. -/
def Value.foreign? : Value → Option String
  | .foreign typeName => some typeName
  | _ => none

theorem Value.foreign?_eq_some_iff {v : Value} {t : String} :
    v.foreign? = some t ↔ v = .foreign t := by
  cases v <;> simp [foreign?]

theorem Value.size_lt_of_mem_parts {v w : Value} (h : w ∈ parts v) : w.size < v.size := by
  have hle : w.size ≤ ((parts v).map size).sum := List.le_sum_of_mem (List.mem_map_of_mem h)
  have := v.size_eq_parts
  omega

namespace Encoding

variable {g : Graph} {rules : Rules} {root : Value} {fuel : Nat}

/-! ### What encoding comes across -/

/-- The values that encoding comes across. -/
inductive Meets (g : Graph) (rules : Rules) (root : Value) : Value → Prop
  /-- The root. -/
  | root : Meets g rules root root
  /-- An item of a list or a tuple, or a value of a map. -/
  | part {v w : Value} (met : Meets g rules root v) (h : w ∈ parts v) : Meets g rules root w
  /-- A value in a selected field of a node. -/
  | field {id : NodeId} {w : Value} (met : Meets g rules root (.node id))
    (h : w ∈ selectedValues g rules id) : Meets g rules root w

theorem Meets.reaches {v : Value} (h : Meets g rules root v) :
    ∀ id ∈ v.references, Reaches g rules root id := by
  induction h with
  | root => exact fun id hid => .root hid
  | @part v w met h ih =>
    have hv : ∀ id, v ≠ .node id := by rintro id rfl; simp [parts] at h
    intro id hid
    exact ih id (by rw [Value.references_eq_parts hv]; exact List.mem_flatMap.2 ⟨w, h, hid⟩)
  | field met h ih =>
    intro id hid
    exact .field (ih _ (by simp)) (List.mem_flatMap.2 ⟨_, h, hid⟩)

/-- What is met behind something that is met is met as well. -/
theorem Meets.trans {v w : Value} (h : Meets g rules root v) (hw : Meets g rules v w) :
    Meets g rules root w := by
  induction hw with
  | root => exact h
  | part _ hpart ih => exact ih.part hpart
  | field _ hfield ih => exact ih.field hfield

/-- What holds of the root and of all that stands in fields, and of the parts of whatever it holds
of, holds of everything that is met. -/
theorem Meets.induct {P : Value → Prop} (hroot : P root)
    (hparts : ∀ v, P v → ∀ w ∈ parts v, P w)
    (hfields : ∀ n ∈ g.nodes.toList, ∀ e ∈ n.fields, P e.2) {v : Value}
    (h : Meets g rules root v) : P v := by
  induction h with
  | root => exact hroot
  | part _ hpart ih => exact hparts _ ih _ hpart
  | @field id w _ hfield _ =>
    cases hn : rules.fieldsFor (g.node id).schema with
    | error e =>
      rw [selectedValues, selected, hn] at hfield
      exact absurd hfield List.not_mem_nil
    | ok names =>
      rw [selectedValues_eq hn] at hfield
      obtain ⟨n, hmem, e, he, rfl⟩ := exists_field_of_mem_get hn hfield
      exact hfields n hmem e he

/-- The nodes that a value refers to are met behind it. -/
theorem Meets.node {v : Value} (h : Meets g rules root v) {id : NodeId} (hid : id ∈ v.references) :
    Meets g rules root (.node id) := by
  induction hn : v.size using Nat.strongRecOn generalizing v with
  | ind n ih =>
    by_cases hv : ∀ id, v ≠ .node id
    · rw [Value.references_eq_parts hv] at hid
      obtain ⟨w, hw, hid⟩ := List.mem_flatMap.1 hid
      exact ih w.size (hn ▸ Value.size_lt_of_mem_parts hw) (h.part hw) hid rfl
    · push Not at hv
      obtain ⟨m, rfl⟩ := hv
      obtain rfl : id = m := by simpa using hid
      exact h

/-- The values `vs` are listed depth first, with what is behind them in front of the next one.
`seen` holds the nodes met before, and `seen'` those met afterwards; only a node that was not seen
has its fields listed. -/
inductive DepthFirst (g : Graph) (rules : Rules) :
    (seen : List NodeId) → (vs met : List Value) → (seen' : List NodeId) → Prop
  /-- There is nothing to be listed. -/
  | nil {seen : List NodeId} : DepthFirst g rules seen [] [] seen
  /-- A value that is no node, and its parts. -/
  | value {seen seen₁ seen₂ : List NodeId} {v : Value} {vs met₁ met₂ : List Value}
    (hv : ∀ id, v ≠ .node id) (parts : DepthFirst g rules seen (parts v) met₁ seen₁)
    (rest : DepthFirst g rules seen₁ vs met₂ seen₂) :
    DepthFirst g rules seen (v :: vs) (v :: (met₁ ++ met₂)) seen₂
  /-- A node that is met once more. -/
  | again {seen seen₁ : List NodeId} {id : NodeId} {vs met : List Value} (hid : id ∈ seen)
    (rest : DepthFirst g rules seen vs met seen₁) :
    DepthFirst g rules seen (.node id :: vs) (.node id :: met) seen₁
  /-- A node that is met for the first time, and the values in its selected fields. -/
  | first {seen seen₁ seen₂ : List NodeId} {id : NodeId} {vs met₁ met₂ : List Value}
    (hid : id ∉ seen)
    (fields : DepthFirst g rules (seen ++ [id]) (selectedValues g rules id) met₁ seen₁)
    (rest : DepthFirst g rules seen₁ vs met₂ seen₂) :
    DepthFirst g rules seen (.node id :: vs) (.node id :: (met₁ ++ met₂)) seen₂

namespace DepthFirst

variable {seen seen' : List NodeId} {vs ws met : List Value}

/-- A list of values is listed one part after the other. -/
theorem split (h : DepthFirst g rules seen (vs ++ ws) met seen') :
    ∃ met₁ seen₁ met₂, DepthFirst g rules seen vs met₁ seen₁ ∧
      DepthFirst g rules seen₁ ws met₂ seen' ∧ met = met₁ ++ met₂ := by
  induction vs generalizing seen met with
  | nil => exact ⟨[], seen, met, .nil, h, rfl⟩
  | cons v vs ih =>
    cases h with
    | value hv hparts hrest =>
      obtain ⟨met₁, seen₁, met₂, h₁, h₂, rfl⟩ := ih hrest
      exact ⟨_, seen₁, met₂, .value hv hparts h₁, h₂, by simp⟩
    | again hid hrest =>
      obtain ⟨met₁, seen₁, met₂, h₁, h₂, rfl⟩ := ih hrest
      exact ⟨_, seen₁, met₂, .again hid h₁, h₂, by simp⟩
    | first hid hfields hrest =>
      obtain ⟨met₁, seen₁, met₂, h₁, h₂, rfl⟩ := ih hrest
      exact ⟨_, seen₁, met₂, .first hid hfields h₁, h₂, by simp⟩

/-- What is listed is met. -/
theorem meets (h : DepthFirst g rules seen vs met seen') (hvs : ∀ v ∈ vs, Meets g rules root v) :
    ∀ v ∈ met, Meets g rules root v := by
  induction h with
  | nil => simp
  | value hv _ _ ihparts ihrest =>
    obtain ⟨hmet, hvs⟩ := List.forall_mem_cons.1 hvs
    exact List.forall_mem_cons.2 ⟨hmet, List.forall_mem_append.2
      ⟨ihparts fun w hw => hmet.part hw, ihrest hvs⟩⟩
  | again _ _ ihrest =>
    obtain ⟨hmet, hvs⟩ := List.forall_mem_cons.1 hvs
    exact List.forall_mem_cons.2 ⟨hmet, ihrest hvs⟩
  | first _ _ _ ihfields ihrest =>
    obtain ⟨hmet, hvs⟩ := List.forall_mem_cons.1 hvs
    exact List.forall_mem_cons.2 ⟨hmet, List.forall_mem_append.2
      ⟨ihfields fun w hw => hmet.field hw, ihrest hvs⟩⟩

/-- Nodes that were seen before count as seen. -/
theorem seen_mono (h : DepthFirst g rules seen vs met seen') : ∀ id ∈ seen, id ∈ seen' := by
  induction h with
  | nil => exact fun _ => id
  | value _ _ _ ihparts ihrest => exact fun id hid => ihrest id (ihparts id hid)
  | again _ _ ihrest => exact ihrest
  | first _ _ _ ihfields ihrest =>
    exact fun id hid => ihrest id (ihfields id (List.mem_append_left _ hid))

/-- The values to be listed are on the list. -/
theorem mem_of_mem (h : DepthFirst g rules seen vs met seen') : ∀ v ∈ vs, v ∈ met := by
  induction h with
  | nil => simp
  | value _ _ _ _ ihrest => simp_all
  | again _ _ ihrest => simp_all
  | first _ _ _ _ ihrest => simp_all

/-- So are the parts of the values on it. -/
theorem mem_of_mem_parts (h : DepthFirst g rules seen vs met seen') :
    ∀ v ∈ met, ∀ w ∈ parts v, w ∈ met := by
  induction h with
  | nil => simp
  | value _ hparts _ ihparts ihrest =>
    refine List.forall_mem_cons.2 ⟨fun w hw => ?_, List.forall_mem_append.2
      ⟨fun v hv w hw => ?_, fun v hv w hw => ?_⟩⟩
    · simp [hparts.mem_of_mem w hw]
    · simp [ihparts v hv w hw]
    · simp [ihrest v hv w hw]
  | again _ _ ihrest =>
    refine List.forall_mem_cons.2 ⟨by simp [parts], fun v hv w hw => ?_⟩
    exact List.mem_cons_of_mem _ (ihrest v hv w hw)
  | first _ _ _ ihfields ihrest =>
    refine List.forall_mem_cons.2 ⟨by simp [parts], List.forall_mem_append.2
      ⟨fun v hv w hw => ?_, fun v hv w hw => ?_⟩⟩
    · simp [ihfields v hv w hw]
    · simp [ihrest v hv w hw]

/-- The nodes on it were seen. -/
theorem mem_seen_of_mem (h : DepthFirst g rules seen vs met seen') :
    ∀ id, .node id ∈ met → id ∈ seen' := by
  induction h with
  | nil => simp
  | value hv _ hrest ihparts ihrest =>
    intro id hid
    rcases List.mem_cons.1 hid with heq | hid
    · exact absurd heq.symm (hv id)
    · rcases List.mem_append.1 hid with hid | hid
      · -- what was seen among the parts is still seen after the rest
        exact hrest.seen_mono id (ihparts id hid)
      · exact ihrest id hid
  | @again _ _ m _ _ hm hrest ihrest =>
    intro id hid
    rcases List.mem_cons.1 hid with heq | hid
    · obtain rfl : id = m := by simpa using heq
      exact hrest.seen_mono id hm
    · exact ihrest id hid
  | @first _ _ _ m _ _ _ _ hfields hrest ihfields ihrest =>
    intro id hid
    rcases List.mem_cons.1 hid with heq | hid
    · obtain rfl : id = m := by simpa using heq
      exact hrest.seen_mono id (hfields.seen_mono id (by simp))
    · rcases List.mem_append.1 hid with hid | hid
      · exact hrest.seen_mono id (ihfields id hid)
      · exact ihrest id hid

/-- The values in the selected fields of a node that was not seen before are on the list. -/
theorem mem_of_mem_selectedValues (h : DepthFirst g rules seen vs met seen') :
    ∀ id ∈ seen', id ∉ seen → ∀ w ∈ selectedValues g rules id, w ∈ met := by
  induction h with
  | nil => exact fun id hid hnot => absurd hid hnot
  | @value _ seen₁ _ _ _ _ _ _ _ _ ihparts ihrest =>
    intro id hid hnot w hw
    -- a node is seen for the first time either in the parts or behind them
    by_cases hmem : id ∈ seen₁
    · simp [ihparts id hmem hnot w hw]
    · simp [ihrest id hid hmem w hw]
  | again _ _ ihrest =>
    exact fun id hid hnot w hw => List.mem_cons_of_mem _ (ihrest id hid hnot w hw)
  | @first _ seen₁ _ m _ _ _ _ hfields _ ihfields ihrest =>
    intro id hid hnot w hw
    by_cases hmem : id ∈ seen₁
    · by_cases heq : id = m
      · simp [hfields.mem_of_mem w (heq ▸ hw)]
      · simp [ihfields id hmem (by simp [hnot, heq]) w hw]
    · simp [ihrest id hid hmem w hw]

/-- The list that starts from the root holds what is met. -/
theorem mem_iff (h : DepthFirst g rules [] [root] met seen') (v : Value) :
    v ∈ met ↔ Meets g rules root v := by
  refine ⟨h.meets (by simpa using Meets.root) v, fun hv => ?_⟩
  induction hv with
  | root => exact h.mem_of_mem _ (by simp)
  | part _ hw ih => exact h.mem_of_mem_parts _ ih _ hw
  | field _ hw ih =>
    exact h.mem_of_mem_selectedValues _ (h.mem_seen_of_mem _ ih) (by simp) _ hw

end DepthFirst

/-! ### Writing in this order -/

section

open Emission

variable {shared : NodeId → Bool} {cells : Array Draft} {named seen' : List NodeId} {v : Value}
  {cell : CellId} {stack : List (Value × CellId)} {e e₁ : Emission} {rest met : List Value}

/-- Everything but a node and a foreign value is written. -/
theorem exists_write (hv : ∀ id, v ≠ .node id) (hforeign : v.foreign? = none)
    (e : Emission) (cell : CellId) : ∃ e₁, write g rules shared e v cell = .ok e₁ := by
  cases v with
  | node id => exact absurd rfl (hv id)
  | foreign t => exact absurd hforeign (by simp [Value.foreign?])
  | _ => exact ⟨_, rfl⟩

/-- The loop that writes meets some values and then comes to what is on the stack behind them, or it
stops at the first of them that has no JSON form. -/
def Passes (g : Graph) (rules : Rules) (root : Value) (shared : NodeId → Bool) (fuel : Nat)
    (e : Emission) (met rest : List Value) (seen' : List NodeId) : Prop :=
  (∃ name, met.findSome? Value.foreign? = some name ∧
      run g rules shared fuel e = .error (.unencodable name)) ∨
    met.findSome? Value.foreign? = none ∧ ∃ fuel' e',
      run g rules shared fuel e = run g rules shared fuel' e' ∧ e'.stack.map Prod.fst = rest ∧
        Tracked g rules root shared fuel' e' seen'

namespace Passes

/-- One value more is met. -/
theorem step (hwrite : write g rules shared ⟨cells, named, stack⟩ v cell = .ok e₁)
    (hforeign : v.foreign? = none) (h : Passes g rules root shared fuel e₁ met rest seen') :
    Passes g rules root shared (fuel + 1) ⟨cells, named, (v, cell) :: stack⟩ (v :: met) rest
      seen' := by
  have hrun : run g rules shared (fuel + 1) ⟨cells, named, (v, cell) :: stack⟩
      = run g rules shared fuel e₁ := by simp only [run, hwrite]
  unfold Passes
  rw [hrun, List.findSome?_cons, hforeign]
  exact h

/-- What is behind some values is met after them. -/
theorem trans {met₁ met₂ mid : List Value} {seen₁ : List NodeId}
    (h : Passes g rules root shared fuel e met₁ mid seen₁)
    (hmid : ∀ fuel' e', e'.stack.map Prod.fst = mid → Tracked g rules root shared fuel' e' seen₁ →
      Passes g rules root shared fuel' e' met₂ rest seen') :
    Passes g rules root shared fuel e (met₁ ++ met₂) rest seen' := by
  unfold Passes
  rw [List.findSome?_append]
  rcases h with ⟨name, hname, hrun⟩ | ⟨hnone, fuel', e', hrun, hstack, t⟩
  · exact .inl ⟨name, by rw [hname]; rfl, hrun⟩
  · rw [hnone, hrun]
    exact hmid fuel' e' hstack t

end Passes

variable (hg : g.IsProper)
  (hfits : ∀ id, Reaches g rules root id → ¬ rules.Misfits (g.node id))
  {ids : List NodeId} (hnd : ids.Nodup) (hmem : ∀ m, m ∈ ids ↔ Reaches g rules root m)
  (hshared : ∀ id, ReachedTwice g rules root id → shared id = true)

include hg hfits hnd hmem hshared

/-- The loop that writes meets the values in the order of the list. -/
theorem DepthFirst.passes {seen : List NodeId} {vs : List Value}
    (h : DepthFirst g rules seen vs met seen') (hstack : e.stack.map Prod.fst = vs ++ rest)
    (t : Tracked g rules root shared fuel e seen) :
    Passes g rules root shared fuel e met rest seen' := by
  induction h generalizing fuel e rest with
  | nil => exact .inr ⟨rfl, fuel, e, rfl, hstack, t⟩
  | @value _ _ _ v vs _ _ hv _ _ ihparts ihrest =>
    obtain ⟨cells, named, cell, stack, fuel, rfl, rfl, hvs⟩ := t.exists_cons hstack
    cases hforeign : v.foreign? with
    | some name =>
      obtain rfl := Value.foreign?_eq_some_iff.1 hforeign
      exact .inl ⟨name, rfl, rfl⟩
    | none =>
      obtain ⟨e₁, hwrite⟩ : ∃ e₁, write g rules shared ⟨cells, named, stack⟩ v cell = .ok e₁ :=
        exists_write hv hforeign _ cell
      obtain ⟨hnamed, hstack₁⟩ := write_pass hv hwrite
      have hparts : e₁.stack.map Prod.fst = parts v ++ (vs ++ rest) := hstack₁.trans (hvs ▸ rfl)
      exact .step hwrite hforeign (.trans (ihparts hparts (t.pass hv hnamed hstack₁))
        fun fuel' e' hstack' t' => ihrest hstack' t')
  | @again seen _ id _ _ hid _ ihrest =>
    obtain ⟨cells, named, cell, stack, fuel, rfl, rfl, hvs⟩ := t.exists_cons hstack
    cases hnamed : identifier? named id with
    -- a node that is met again is shared, and has been named where it was met first
    | none => exact absurd hid (t.notMem_followed hnd hmem hshared hnamed)
    | some ref =>
      have hwrite : write g rules shared ⟨cells, named, stack⟩ (.node id) cell
          = .ok (fill ⟨cells, named, stack⟩ cell (.object [(refKey, .string ref)])) := by
        simp only [write, hnamed]
      exact .step hwrite rfl (ihrest hvs (t.again hnamed rfl rfl))
  | @first seen _ _ id vs _ _ hid _ _ ihfields ihrest =>
    obtain ⟨cells, named, cell, stack, fuel, rfl, rfl, hvs⟩ := t.exists_cons hstack
    cases hnamed : identifier? named id with
    | some ref =>
      -- a node with an identifier was followed, against `hid`
      have hin : id ∈ named := mem_of_identifier? hnamed
      rw [show named = _ from t.named] at hin
      exact absurd (List.mem_filter.1 hin).1 hid
    | none =>
      obtain ⟨names, hnames⟩ := Rules.exists_fieldsFor (hfits id t.reaches_of_node)
      have hwrite : write g rules shared ⟨cells, named, stack⟩ (.node id) cell = _ :=
        write_node_of_none hnamed hnames cell
      obtain ⟨names', hnames', hnamed', hstack'⟩ := write_follow hnamed hwrite
      obtain rfl := Except.ok.inj (hnames.symm.trans hnames')
      have hfields := hstack'.trans
        (show _ = selectedValues g rules id ++ (vs ++ rest) by
          rw [hvs, selectedValues_eq hnames]; rfl)
      exact .step hwrite rfl (.trans
        (ihfields hfields (t.follow hg hnd hmem hshared hnamed hnames hnamed' hstack'))
        fun fuel' e' hstack' t' => ihrest hstack' t')

end

/-! ### When encoding fails -/

/-- How encoding fails.  `met` are the values that are met, depth first, and `seen` the nodes among
them. -/
structure Outcome (g : Graph) (rules : Rules) (root : Value) (met : List Value)
    (seen : List NodeId) : Prop where
  /-- The values are listed depth first. -/
  depthFirst : DepthFirst g rules [] [root] met seen
  /-- All values that are met are listed. -/
  mem_iff : ∀ v, v ∈ met ↔ Meets g rules root v
  /-- A value that has no JSON form makes encoding fail. -/
  unencodable_iff : (∃ name, g.encode rules root = .error (.unencodable name)) ↔
    ∃ name, Meets g rules root (.foreign name)
  /-- The message names the type of the first one. -/
  first : ∀ name, met.findSome? Value.foreign? = some name → ∃ e,
    g.encode rules root = .error e ∧ e.message = "Cannot encode value of type " ++ name ++ "."
  /-- Without such a value encoding succeeds. -/
  ok_iff : (∃ j, g.encode rules root = .ok j) ↔ ∀ name, ¬ Meets g rules root (.foreign name)

end Encoding

end DeclGraph
