import DeclGraph.Proofs.TranslationUnit.Bodies

/-!
# Functions of a compilation

A function holds the statements of its last body.  When it has been converted nothing changes its
statements any more, so every function of a compilation, at the top or in a namespace, holds in the
final graph what its tree of cursors says, and there are no functions and no statements but those
(`TranslationUnit.code_of_compilation`).
-/

namespace DeclGraph

open Account DeclGraph.Convert

variable {s : ConversionSetting} {p : Account}

/-! ### Functions and what they hold -/

/-- A node is a function that holds this as its statements. -/
structure Node.HoldsBody (n : Node) (v : Value) : Prop where
  isKind : n.isKind .function
  statements : n.get? "statements" = some v

namespace Node

variable {n : Node} {v : Value}

theorem HoldsBody.set_statements (h : n.HoldsBody v) (w : Value) :
    (n.set "statements" w).HoldsBody w :=
  ⟨h.isKind, by rw [get?_set, if_pos rfl, h.statements]; rfl⟩

theorem HoldsBody.set_of_ne (h : n.HoldsBody v) {name : String} (hname : name ≠ "statements")
    (w : Value) : (n.set name w).HoldsBody v :=
  ⟨h.isKind, by rw [get?_set, if_neg hname.symm, h.statements]⟩

theorem HoldsBody.isCode (h : n.HoldsBody v) : n.isCode := by
  rw [Node.isCode, h.isKind, Bool.true_or]

end Node

/-- Nodes for the bodies among trees of cursors: the statements right in each, and all nodes of
these statements. -/
abbrev Bodies := List (List NodeId × List NodeId)

namespace Bodies

/-- All nodes of statements. -/
def code (bodies : Bodies) : List NodeId := bodies.flatMap Prod.snd

/-- What the last body holds, if there is one. -/
def last? (bodies : Bodies) : Option Value := bodies.getLast?.map fun b => .nodes b.1

theorem last?_cons (ids all : List NodeId) (bodies : Bodies) :
    last? ((ids, all) :: bodies) = some (bodies.last?.getD (.nodes ids)) := by
  rw [last?, List.getLast?_cons, last?]
  cases bodies.getLast? <;> rfl

/-- Each body of a function stands for one of the blocks among trees of cursors. -/
def Of (s : ConversionSetting) (g : Graph) (T : Option TypeId → Value → Prop) (f : NodeId)
    (bodies : Bodies) (ts : List CursorTree) : Prop :=
  Picks (fun b t => AreStatements s g T t.children (.node f) b.1 b.2)
    (fun t => (s.unit.cursor t.id).kind == .block) bodies ts

end Bodies

/-- Nodes are a function and all the statements in its bodies; the function holds those of the last
one. -/
def IsFunction (s : ConversionSetting) (g : Graph) (T : Option TypeId → Value → Prop)
    (t : CursorTree) (f : NodeId) (code : List NodeId) : Prop :=
  ∃ bodies : Bodies, bodies.Of s g T f t.children ∧
    (g.node f).HoldsBody (bodies.last?.getD (.nodes [])) ∧ code = f :: bodies.code

/-- A function or a statement changes only where this is told. -/
theorem Graph.Grows.node_eq_of_isCode {X : Set NodeId} {code : List NodeId} {g g' : Graph}
    (h : g.Grows X code g') {id : NodeId} (hcode : (g.node id).isCode) (hid : id ∉ X) :
    g'.node id = g.node id :=
  h.node id (lt_size_of_isCode hcode) hid (Node.isOpen_eq_false_of_isCode hcode)

theorem IsFunction.keep {code added : List NodeId} {g g' : Graph}
    {T : Option TypeId → Value → Prop} {t : CursorTree} {f : NodeId}
    (hf : IsFunction s g T t f code) (h : g.Grows ∅ added g') : IsFunction s g' T t f code := by
  obtain ⟨bodies, hbodies, hholds, hcode⟩ := hf
  refine ⟨bodies, hbodies.imp fun b t hb => ?_, ?_, hcode⟩
  · exact hb.keep h nofun (fun _ _ hv => hv) nofun
  · rw [h.node_eq_of_isCode hholds.isCode (Set.notMem_empty f)]
    exact hholds

/-! ### Converting a function -/

namespace Proceeds

variable {σ₀ : Conversion} {f : NodeId}

variable (s) in
theorem addAttribute (p : Account) (c : Cursor) (parent : Value) :
    Leaves p (addAttribute c parent) fun _ p' => Proceeds s ∅ [] p p' := by
  refine .reads_bind (.kindOf c) (.reads_bind (.nameOf c) ((spanOf s p c).bind ?_))
  intro span p₁ ⟨_, h₁⟩
  exact (add s p₁ rfl).mono fun _ _ ⟨_, h₂⟩ => h₁.trans h₂

variable (s) in
theorem addParameters (p : Account) (parent : Value) (arguments : List CursorId) :
    Leaves p (addParameters s parent arguments) fun _ p' => Proceeds s ∅ [] p p' := by
  induction arguments generalizing p with
  | nil => exact .pure (.refl ∅ p)
  | cons a rest ih =>
    refine .reads_bind (.nameOf _) (.reads_bind (.typeOf _) (.run_bind fun v p₁ hrun => ?_))
    refine (spanOf s p₁ _).bind fun span p₂ ⟨_, h₂⟩ => ?_
    refine (add s p₂ rfl).bind fun id p₃ ⟨_, h₃⟩ => (ih p₃).bind fun _ p₄ h₄ => .pure ?_
    exact ((type hrun).trans h₂).trans (h₃.trans h₄)

/-- Setting a field of a function. -/
theorem setField_function {v : Value} (hf : (p.graph.node f).HoldsBody v) (name : String)
    (w : Value) : Proceeds s {f} [] p (p.setField f name w) :=
  setField hf.isCode (Set.mem_singleton f) name w

/-- The parts of a function one after another; of several bodies it holds the last one. -/
theorem addFunctionParts (h₀ : Course s σ₀ p.toConversion) {v : Value}
    (hf : (p.graph.node f).HoldsBody v) (ts : List CursorTree) :
    Leaves p (addFunctionParts s f ts) fun _ p' => ∃ bodies : Bodies,
      bodies.Of s p'.graph (Yields s σ₀ p'.toConversion) f ts ∧
      (p'.graph.node f).HoldsBody (bodies.last?.getD v) ∧ Proceeds s {f} bodies.code p p' := by
  induction ts generalizing p v with
  | nil => exact .pure ⟨[], .nil, hf, .refl _ p⟩
  | cons t rest ih =>
    have hold : ∀ {p₁ : Account} {code}, Proceeds s ∅ code p p₁ → (p₁.graph.node f).HoldsBody v :=
      fun h₁ => (h₁.grows.node_eq_of_isCode hf.isCode (Set.notMem_empty f)).symm ▸ hf
    refine .reads_bind (.kindOf _) ?_
    split_ifs with hblock hattr
    · refine (addStatements_areStatements h₀ (.node f) t.children).bind
        fun ids p₁ ⟨all, hall, h₁⟩ => .setField_bind ?_
      have hf₁ := hold h₁
      have h₂ : Proceeds s {f} [] p₁ (p₁.setField f "statements" (.nodes ids)) :=
        setField_function hf₁ _ _
      have hf₂ : ((p₁.setField f "statements" (.nodes ids)).graph.node f).HoldsBody (.nodes ids) :=
        (Graph.node_setField_self ..).symm ▸ hf₁.set_statements _
      have h₁₂ : Proceeds s {f} (all ++ []) p _ := (h₁.mono (Set.empty_subset _)).trans h₂
      refine (ih (h₀.trans h₁₂.course) hf₂).mono fun _ p₃ ⟨bodies, hbodies, hholds, h₃⟩ =>
        ⟨(ids, all) :: bodies, hbodies.cons_of_pos (by simp [hblock]) ?_, ?_, ?_⟩
      · -- The function itself is none of the statements.
        have hne : ∀ id ∈ all, id ∉ ({f} : Set NodeId) := fun id hid heq =>
          absurd (h₁.grows.isNew hid) (not_le.2
            (Set.mem_singleton_iff.1 heq ▸ Graph.lt_size_of_isCode hf.isCode))
        refine hall.keep (h₂.trans h₃).grows ?_ (fun _ _ hv => hv.mono (h₂.trans h₃).course) hne
        rintro _ rfl
        exact hf₁.isCode
      · rw [Bodies.last?_cons]
        exact hholds
      · have h₁₃ := h₁₂.trans h₃
        rwa [List.append_nil] at h₁₃
    · refine (addAttribute s p _ _).bind fun x p₁ h₁ => ?_
      have happend : Leaves p₁ (append f "attributes" x) fun _ p' =>
          ∃ w, p' = p₁.setField f "attributes" w := .node_bind (.setField ⟨_, rfl⟩)
      refine happend.bind ?_
      rintro _ _ ⟨w, rfl⟩
      have hf₁ := hold h₁
      have hf₂ : ((p₁.setField f "attributes" w).graph.node f).HoldsBody v :=
        (Graph.node_setField_self ..).symm ▸ hf₁.set_of_ne (by decide) w
      have h₁₂ := (h₁.mono (Set.empty_subset _)).trans (setField_function hf₁ "attributes" w)
      refine (ih (h₀.trans h₁₂.course) hf₂).mono fun _ p₃ ⟨bodies, hbodies, hholds, h₃⟩ => ?_
      have hnot : ¬(s.unit.cursor t.id).kind == .block := by simpa using hblock
      exact ⟨bodies, hbodies.cons_of_neg hnot, hholds, h₁₂.trans h₃⟩
    · exact .reads_bind (.pure _) ((ih h₀ hf).mono fun _ p₁ ⟨bodies, hbodies, h₁⟩ =>
        ⟨bodies, hbodies.cons_of_neg (by simpa using hblock), h₁⟩)

/-- A function with its bodies. -/
theorem addFunction (p : Account) (t : CursorTree) (parent : Value) :
    Leaves p (addFunction s t parent) fun f p' => ∃ code,
      IsFunction s p'.graph (Yields s p.toConversion p'.toConversion) t f code ∧
      p.graph.Grows ∅ code p'.graph := by
  refine .reads_bind (.nameOf _) (.run_bind fun result p₁ hrun => .reads_bind (.markersOf _ _) ?_)
  have h₁ : Proceeds s ∅ [] p p₁ := .type hrun
  refine (spanOf s p₁ _).bind fun span p₂ ⟨_, h₂⟩ => ?_
  refine (add_code s p₂ rfl).bind fun f p₃ ⟨hnode, h₃⟩ => ?_
  refine (addParameters s p₃ _ _).bind fun parameters p₄ h₄ => .setField_bind ?_
  -- from here on the function holds one body, which is empty
  have hf₃ : (p₃.graph.node f).HoldsBody (.nodes []) := hnode ▸ ⟨rfl, rfl⟩
  have hf₄ : (p₄.graph.node f).HoldsBody (.nodes []) :=
    (h₄.grows.node_eq_of_isCode hf₃.isCode (Set.notMem_empty f)).symm ▸ hf₃
  have hf₅ :
      ((p₄.setField f "parameters" (.nodes parameters)).graph.node f).HoldsBody (.nodes []) :=
    (Graph.node_setField_self ..).symm ▸ hf₄.set_of_ne (by decide) _
  have h₅ : Proceeds s {f} [] p₄ (p₄.setField f "parameters" (.nodes parameters)) :=
    setField_function hf₄ "parameters" _
  have h₁₄ : Proceeds s ∅ [f] p p₄ := ((h₁.trans h₂).trans h₃).trans h₄
  refine (addFunctionParts (h₁₄.course.trans h₅.course) hf₅ t.children).bind
    fun _ p₆ ⟨bodies, hbodies, hholds, h₆⟩ =>
      .pure ⟨f :: bodies.code, ⟨bodies, hbodies, hholds, rfl⟩, ?_⟩
  refine (h₁₄.trans_of (h₅.trans h₆) fun id heq hlt => ?_).grows
  have hid := h₁₄.grows.isNew (List.mem_singleton_self f)
  exact absurd hid (not_le.2 (Set.mem_singleton_iff.1 heq ▸ hlt))

end Proceeds

/-! ### Functions among other things -/

/-- A step that changes no functions and no statements and adds none. -/
theorem Leaves.of_growing {α : Type} {X : Set NodeId} {x : Convert α} (hx : Growing X x) :
    Leaves p x fun _ p' => p.graph.Grows X [] p'.graph := fun _ σ hrun =>
  ⟨{ p with toConversion := σ }, rfl, hx _ _ _ hrun⟩

/-- What a step leaves is the outcome of its run. -/
theorem Leaves.with_run {α : Type} {x : Convert α} {Q : α → Account → Prop} (hx : Leaves p x Q) :
    Leaves p x fun a p' => x.run p.toConversion = .ok (a, p'.toConversion) ∧ Q a p' := by
  intro a σ hrun
  obtain ⟨p', rfl, hQ⟩ := hx a σ hrun
  exact ⟨p', rfl, hrun, hQ⟩

mutual

/-- The functions in a tree of cursors, those in namespaces among them. -/
def TranslationUnit.functionsIn (u : TranslationUnit) : CursorTree → List CursorTree
  | .node c children =>
    if (u.cursor c).kind = .function then [.node c children]
    else if (u.cursor c).kind = .scope then u.functionsAmong children
    else []

/-- The functions in trees of cursors. -/
def TranslationUnit.functionsAmong (u : TranslationUnit) : List CursorTree → List CursorTree
  | [] => []
  | t :: rest => u.functionsIn t ++ u.functionsAmong rest

end

/-- The functions of a unit that are converted, in order. -/
def ConversionSetting.functions (s : ConversionSetting) : List CursorTree :=
  (s.kept.filter s.isVisited).flatMap fun c => s.unit.functionsIn (s.unit.tree c)

/-- A function was converted, and these are its nodes in the end: the function and its
statements. -/
def IsConvertedFunction (s : ConversionSetting) (g : Graph) (code : List NodeId) (t : CursorTree) :
    Prop :=
  ∃ parent σ f σ', (addFunction s t parent).run σ = .ok (f, σ') ∧
    IsFunction s g (Yields s σ σ') t f code

/-- The functions of trees of cursors were converted, each to nodes of its own. -/
def Carries (s : ConversionSetting) (ts : List CursorTree) (p p' : Account) : Prop :=
  ∃ codes : List (List NodeId), List.Forall₂ (IsConvertedFunction s p'.graph) codes ts ∧
    p.graph.Grows ∅ codes.flatten p'.graph

namespace Carries

variable {ts ts' : List CursorTree} {p₁ p₂ : Account} {id : NodeId}

theorem of_grows (h : p.graph.Grows ∅ [] p₁.graph) : Carries s [] p p₁ := ⟨[], .nil, h⟩

theorem trans (h : Carries s ts p p₁) (h' : Carries s ts' p₁ p₂) :
    Carries s (ts ++ ts') p p₂ := by
  obtain ⟨codes, hcodes, hgrows⟩ := h
  obtain ⟨codes', hcodes', hgrows'⟩ := h'
  refine ⟨codes ++ codes', List.rel_append (hcodes.imp fun code t => ?_) hcodes', ?_⟩
  · rintro ⟨parent, σ, f, σ', hrun, hf⟩
    exact ⟨parent, σ, f, σ', hrun, hf.keep hgrows'⟩
  · rw [List.flatten_append]
    exact hgrows.trans hgrows'

theorem isOpen (h : Carries s ts p p₁) (hid : (p.graph.node id).isOpen) :
    (p₁.graph.node id).isOpen := by
  obtain ⟨_, _, hgrows⟩ := h
  exact hgrows.isOpen hid

/-- What is found is put into an open node. -/
theorem put (h : Carries s ts p p₁) (hid : (p.graph.node id).isOpen)
    (h' : p₁.graph.Grows {id} [] p₂.graph) : Carries s ts p p₂ := by
  have hput : Carries s [] p₁ p₂ := of_grows (h'.of_isOpen (h.isOpen hid))
  exact List.append_nil ts ▸ h.trans hput

/-- A single function. -/
theorem of_addFunction (p : Account) (t : CursorTree) (parent : Value) :
    Leaves p (addFunction s t parent) fun _ p' => Carries s [t] p p' :=
  (Proceeds.addFunction p t parent).with_run.mono fun f p' ⟨hrun, code, hf, hgrows⟩ =>
    ⟨[code], .cons ⟨parent, _, f, _, hrun, hf⟩ .nil, by simpa using hgrows⟩

variable (s) in
theorem of_growing {α : Type} {x : Convert α} (hx : Growing {id} x)
    (hid : (p.graph.node id).isOpen) : Leaves p x fun _ p' => Carries s [] p p' :=
  (Leaves.of_growing hx).mono fun _ _ h => of_grows (h.of_isOpen hid)

mutual

/-- The functions in a tree are converted. -/
theorem of_visit : (t : CursorTree) → ∀ {p : Account} {id : NodeId}, (p.graph.node id).isOpen →
    Leaves p (visit s id t) fun _ p' => Carries s (s.unit.functionsIn t) p p'
  | .node c children, p, id, hid => by
    have hsingle := Set.mem_singleton id
    -- what is neither a function nor a scope brings no functions along
    have other : ∀ {x : Convert NodeId} {f : NodeId → Convert Unit}, Growing ∅ x →
        (∀ a, Growing {id} (f a)) → (s.unit.cursor c).kind ≠ .function →
        (s.unit.cursor c).kind ≠ .scope → Leaves p (x >>= f) fun _ p' =>
          Carries s (s.unit.functionsIn (.node c children)) p p' := fun hx hf hfunction hscope => by
      rw [TranslationUnit.functionsIn, if_neg hfunction, if_neg hscope]
      exact of_growing s ((hx.mono (Set.empty_subset _)).bind hf) hid
    rw [visit]
    refine .reads_bind (.kindOf _) ?_
    split_ifs with hfunction hrecord henum htypedef hvar hscope
    · rw [TranslationUnit.functionsIn, if_pos hfunction]
      refine (of_addFunction p _ _).bind fun f p₁ h₁ => ?_
      exact (Leaves.of_growing (.append hsingle _ f)).mono fun _ p₂ h₂ => h₁.put hid h₂
    · refine other (.recordNode s c _) (fun _ => .appendOnce hsingle _ _) hfunction fun heq => ?_
      exact absurd hrecord (by rw [heq]; decide)
    · exact other (.enumNode s c _) (fun _ => .appendOnce hsingle _ _) hfunction
        (by rw [henum]; decide)
    · exact other (.typedefNode s c _) (fun _ => .appendOnce hsingle _ _) hfunction
        (by rw [htypedef]; decide)
    · exact other (.fieldNode s c _) (fun _ => .append hsingle _ _) hfunction
        (by rw [hvar]; decide)
    · rw [TranslationUnit.functionsIn, if_neg hfunction, if_pos hscope]
      refine .reads_bind (.nameOf _) ((Proceeds.spanOf s p _).bind fun span p₁ ⟨_, h₁⟩ => ?_)
      refine (Proceeds.add s p₁ rfl).bind fun scope p₂ ⟨hnode, h₂⟩ => ?_
      have hscope₂ : (p₂.graph.node scope).isOpen := by rw [hnode]; rfl
      refine (of_visitAll children hscope₂).bind fun _ p₃ h₃ => ?_
      have h₁₃ := ((of_grows h₁.grows).trans (of_grows h₂.grows)).trans h₃
      exact (Leaves.of_growing (.append hsingle _ scope)).mono fun _ p₄ h₄ => h₁₃.put hid h₄
    · rw [TranslationUnit.functionsIn, if_neg hfunction, if_neg hscope]
      exact .pure (.of_grows (.refl ∅ _))

/-- The functions in trees are converted one after another. -/
theorem of_visitAll : (ts : List CursorTree) → ∀ {p : Account} {id : NodeId},
    (p.graph.node id).isOpen →
    Leaves p (visitAll s id ts) fun _ p' => Carries s (s.unit.functionsAmong ts) p p'
  | [], p, id, _ => by
    rw [visitAll]
    exact .pure (.of_grows (.refl ∅ _))
  | t :: rest, p, id, hid => by
    rw [visitAll]
    exact (of_visit t hid).bind fun _ p₁ h₁ =>
      (of_visitAll rest (h₁.isOpen hid)).mono fun _ p₂ h₂ => h₁.trans h₂

end

/-- The functions of what stands at the top are converted. -/
theorem of_visitTop (hid : (p.graph.node id).isOpen) (rest : List CursorId) :
    Leaves p (visitTop s id rest) fun _ p' => Carries s (((rest.filter s.isKept).filter
      s.isVisited).flatMap fun c => s.unit.functionsIn (s.unit.tree c)) p p' := by
  induction rest generalizing p with
  | nil => exact .pure (.of_grows (.refl ∅ _))
  | cons c rest ih =>
    have hsingle := Set.mem_singleton id
    refine .reads_bind (.check _) ?_
    by_cases hkept : isKept s (s.unit.cursor c).location
    swap
    · rw [if_neg hkept, List.filter_cons_of_neg (p := s.isKept) hkept]
      exact ih hid
    rw [if_pos hkept, List.filter_cons_of_pos (p := s.isKept) hkept]
    -- macros and attributes bring no functions along
    have other : ∀ {x : Convert NodeId} {name : String}, Growing ∅ x → ¬s.isVisited c →
        Leaves p (x >>= fun item => append id name item >>= fun _ => visitTop s id rest)
          fun _ p' => Carries s (((c :: rest.filter s.isKept).filter s.isVisited).flatMap
            fun c => s.unit.functionsIn (s.unit.tree c)) p p' := fun hx hnot => by
      rw [List.filter_cons_of_neg hnot, ← bind_assoc]
      refine (of_growing s ((hx.mono (Set.empty_subset _)).bind
        fun item => Growing.append hsingle _ item) hid).bind fun _ p₁ h₁ => ?_
      exact (ih (h₁.isOpen hid)).mono fun _ p₂ h₂ => h₁.trans h₂
    refine .reads_bind (.kindOf _) ?_
    split_ifs with hdefined hattr
    · exact other (.addMacro _ _) (by simp [ConversionSetting.isVisited, hdefined])
    · exact other (.addAttribute _ _) (by simp [ConversionSetting.isVisited, hattr])
    · have hvisited : s.isVisited c := by simp [ConversionSetting.isVisited, hdefined, hattr]
      rw [List.filter_cons_of_pos hvisited, List.flatMap_cons]
      exact (of_visit _ hid).bind fun _ p₁ h₁ =>
        (ih (h₁.isOpen hid)).mono fun _ p₂ h₂ => h₁.trans h₂

theorem of_convertUnit (p : Account) (source : String) :
    Leaves p (convertUnit s source) fun _ p' => Carries s s.functions p p' := by
  have hremarks : Growing ∅ (s.unit.remarks.mapM addRemark) := .mapM .addRemark _
  refine (Leaves.of_growing hremarks).bind fun remarks p₁ h₁ => ?_
  refine (Proceeds.add s p₁ rfl).bind fun id p₂ ⟨hnode, h₂⟩ => ?_
  have hid : (p₂.graph.node id).isOpen := by rw [hnode]; rfl
  refine (of_visitTop hid s.unit.top).bind fun _ p₃ h₃ => .pure ?_
  exact ((of_grows h₁).trans (of_grows h₂.grows)).trans h₃

end Carries

/-- The functions and statements of a graph are those of the functions that are converted, each of
which has nodes of its own. -/
def HasCode (s : ConversionSetting) (g : Graph) : Prop :=
  ∃ codes : List (List NodeId), List.Forall₂ (IsConvertedFunction s g) codes s.functions ∧
    codes.flatten.Nodup ∧ ∀ id, id ∈ codes.flatten ↔ (g.node id).isCode

/-- The bodies of functions are converted without loss. -/
theorem TranslationUnit.code_of_compilation {u : TranslationUnit} {source : String}
    {options : ParseOptions} {c : Compilation} (hc : u.compilation source options = .ok c) :
    HasCode ⟨u, options⟩ c.graph := by
  unfold compilation at hc
  cases hrun : (convertUnit ⟨u, options⟩ source).run .start with
  | error e => simp [hrun] at hc
  | ok result =>
    obtain ⟨root, σ⟩ := result
    rw [hrun] at hc
    obtain rfl := Except.ok.inj hc
    obtain ⟨p, rfl, codes, hcodes, hgrows⟩ := Carries.of_convertUnit .start source root σ hrun
    refine ⟨codes, hcodes, hgrows.nodup, fun id => ?_⟩
    rw [hgrows.mem_code]
    exact and_iff_right (Nat.zero_le id)

/-- A function that gives twice its argument: in its body a statement holds an expression, and this
one two further ones. -/
def doubling : TranslationUnit where
  cursors := #[
    { Cursor.empty 2 with
      kind := .function, spelling := "twice", location := ⟨some "twice.c", 1, 5, false⟩,
      identity := "c:@F@twice", children := [1], type? := some 1, resultType? := some 0 },
    { Cursor.empty 2 with kind := .block, children := [2] },
    { Cursor.empty 2 with kind := ⟨"RETURN_STMT"⟩, children := [3] },
    { Cursor.empty 2 with kind := ⟨"BINARY_OPERATOR"⟩, children := [4, 5], type? := some 0 },
    { Cursor.empty 2 with kind := ⟨"DECL_REF_EXPR"⟩, spelling := "x", type? := some 0 },
    { Cursor.empty 2 with kind := ⟨"DECL_REF_EXPR"⟩, spelling := "x" }]
  types := #[
    { CType.invalid 2 6 with kind := ⟨"INT"⟩, spelling := "int", size := 4 },
    { CType.invalid 2 6 with
      kind := .prototype, spelling := "int (int)", result? := some 0, arguments := [0] }]
  top := [0]
  remarks := []

/-- The one function of a unit has its body. -/
theorem hasCode_doubling : (ConversionSetting.functions ⟨doubling, default⟩).length = 1 ∧
    ∃ c, doubling.compilation "twice.c" default = .ok c ∧ HasCode ⟨doubling, default⟩ c.graph := by
  obtain ⟨c, hc⟩ : ∃ c, doubling.compilation "twice.c" default = .ok c :=
    exists_eq_ok_of_isOk (by decide +kernel)
  exact ⟨by decide +kernel, c, hc, doubling.code_of_compilation hc⟩

end DeclGraph
