import DeclGraph.Proofs.Entries
import DeclGraph.Proofs.Except
import DeclGraph.TranslationUnit.Compilation

/-!
# Accounts of conversions

An `Account` is the state of a conversion together with what each of its nodes was made from and
which definition has filled each record.  The conversion itself keeps neither; `Leaves` speaks of
its steps with an account of what was there before and one of what is there after.  The rules for
the steps that every conversion is made of come with it: `Leaves.bind`, a rule for each step that
changes the state, and `Reads` for those that only look.
-/

namespace DeclGraph

/-- What a node was made from. -/
inductive Origin
  | place (p : SourcePlace)
  /-- The places where something starts and ends. -/
  | extent (start stop : SourcePlace)
  | attr (c : Cursor)
  | macroDef (c : Cursor)
  | remark (r : Remark)
  | type (t : TypeId)
  /-- A parameter that a type tells of. -/
  | argument (t : TypeId)
  | declaration (c : CursorId) (k : Kind)
  | enumItem (c : Cursor)
  | field (c : Cursor)
  | parameter (c : Cursor)
  | statement (t : CursorTree)
  | function (t : CursorTree)
  | scope (t : CursorTree)
  | compilation (source : String)

/-- A conversion with what its nodes were made from. -/
structure Account extends Conversion where
  /-- What a node was made from. -/
  made : NodeId → Option Origin
  /-- The definition that a record was filled from. -/
  filled : NodeId → Option CursorId

namespace Account

/-- The account of a conversion that has not started. -/
def start : Account := ⟨.start, fun _ => none, fun _ => none⟩

variable (p : Account)

/-- The next node. -/
def enter (n : Node) (o : Option Origin) : Account :=
  { p with
    graph := p.graph.add n
    made := fun id => if id = p.graph.size then o else p.made id }

/-- Another value in a field of a node. -/
def setField (id : NodeId) (name : String) (v : Value) : Account :=
  { p with graph := p.graph.setField id name v }

/-- A node that stands for a declaration from now on. -/
def declare (key : String) (id : NodeId) (c : CursorId) (k : Kind) : Account :=
  { p with
    declarations := Entries.put key id p.declarations
    made := fun id' => if id' = id then some (.declaration c k) else p.made id' }

/-- The next node, which stands for a type. -/
def addType (key : TypeKind × String) (n : Node) (t : TypeId) : Account :=
  { p.enter n (some (.type t)) with types := Entries.put key p.graph.size p.types }

/-- A record that is filled from a definition from now on. -/
def fill (id : NodeId) (d : CursorId) : Account :=
  { p.setField id "is_definition" (.bool true) with
    filled := fun id' => if id' = id then some d else p.filled id' }

end Account

/-- Whenever a step that starts with one account comes to something, there is an account of what it
leaves. -/
def Leaves {α : Type} (p : Account) (x : Convert α) (Q : α → Account → Prop) : Prop :=
  ∀ a σ, x.run p.toConversion = .ok (a, σ) → ∃ p' : Account, p'.toConversion = σ ∧ Q a p'

/-- A step that changes nothing and comes to nothing but one value. -/
def Reads {α : Type} (x : Convert α) (v : α) : Prop :=
  ∀ σ a σ', x.run σ = .ok (a, σ') → a = v ∧ σ' = σ

namespace Leaves

variable {α β : Type} {p : Account} {x : Convert α} {f : α → Convert β} {a v : α}
  {Q : α → Account → Prop} {R : β → Account → Prop}

/-! ### Steps in general -/

theorem pure (h : Q a p) : Leaves p (pure a : Convert α) Q := by
  intro b σ hrun
  obtain ⟨rfl, rfl⟩ := Prod.mk.inj (Except.ok.inj hrun)
  exact ⟨p, rfl, h⟩

theorem throw (e : Fault) : Leaves p (throw e : Convert α) Q := by
  intro b σ hrun
  exact absurd hrun (by simp [MonadExcept.throw, throwThe, MonadExceptOf.throw, StateT.run,
    StateT.lift, bind, Except.bind])

theorem bind (hx : Leaves p x Q) (hf : ∀ a p', Q a p' → Leaves p' (f a) R) :
    Leaves p (x >>= f) R := by
  intro b σ hrun
  rw [StateT.run_bind] at hrun
  obtain ⟨⟨a, σ'⟩, hxrun, hfrun⟩ := exists_of_bind_eq_ok hrun
  obtain ⟨p', rfl, hQ⟩ := hx a σ' hxrun
  exact hf a p' hQ b σ hfrun

theorem mono {Q' : α → Account → Prop} (hx : Leaves p x Q) (h : ∀ a p', Q a p' → Q' a p') :
    Leaves p x Q' := by
  intro a σ hrun
  obtain ⟨p', hp', hQ⟩ := hx a σ hrun
  exact ⟨p', hp', h a p' hQ⟩

/-- What a step does depends on the conversion alone, not on the account of it. -/
theorem recount {q : Account} (heq : q.toConversion = p.toConversion) (hx : Leaves q x Q) :
    Leaves p x Q := by
  rw [Leaves, ← heq]
  exact hx

theorem reads_bind (hx : Reads x v) (hf : Leaves p (f v) R) : Leaves p (x >>= f) R := by
  intro b σ hrun
  rw [StateT.run_bind] at hrun
  obtain ⟨⟨a, σ'⟩, hxrun, hfrun⟩ := exists_of_bind_eq_ok hrun
  obtain ⟨rfl, rfl⟩ := hx _ _ _ hxrun
  exact hf b σ hfrun

/-! ### Steps that ask the state -/

open DeclGraph.Convert

theorem node_bind {id : NodeId} {f : Node → Convert β} (hf : Leaves p (f (p.graph.node id)) R) :
    Leaves p (node id >>= f) R := hf

theorem declared_bind {key : String} {k : Kind} {f : Option NodeId → Convert β}
    (hf : Leaves p (f ((Entries.get? key p.declarations).filter
      fun id => (p.graph.node id).isKind k)) R) :
    Leaves p (declared? key k >>= f) R := hf

theorem converted_bind {key : TypeKind × String} {f : Option NodeId → Convert β}
    (hf : Leaves p (f (Entries.get? key p.types)) R) : Leaves p (converted? key >>= f) R := hf

/-! ### Steps that change the state -/

theorem add {n : Node} {Q : NodeId → Account → Prop} (o : Option Origin)
    (h : Q p.graph.size (p.enter n o)) : Leaves p (add n) Q := by
  intro b σ hrun
  obtain ⟨rfl, rfl⟩ := Prod.mk.inj (Except.ok.inj hrun)
  exact ⟨p.enter n o, rfl, h⟩

theorem add_bind {n : Node} {f : NodeId → Convert β} (o : Option Origin)
    (hf : Leaves (p.enter n o) (f p.graph.size) R) : Leaves p (Convert.add n >>= f) R := hf

theorem setField {id : NodeId} {name : String} {w : Value} {Q : Unit → Account → Prop}
    (h : Q () (p.setField id name w)) : Leaves p (setField id name w) Q := by
  intro b σ hrun
  obtain ⟨rfl, rfl⟩ := Prod.mk.inj (Except.ok.inj hrun)
  exact ⟨p.setField id name w, rfl, h⟩

theorem setField_bind {id : NodeId} {name : String} {w : Value} {f : Unit → Convert β}
    (hf : Leaves (p.setField id name w) (f ()) R) :
    Leaves p (Convert.setField id name w >>= f) R := hf

theorem declare_bind {key : String} {id : NodeId} {f : Unit → Convert β} (c : CursorId) (k : Kind)
    (hf : Leaves (p.declare key id c k) (f ()) R) : Leaves p (declare key id >>= f) R := hf

theorem addType_bind {key : TypeKind × String} {n : Node} {f : NodeId → Convert β} (t : TypeId)
    (hf : Leaves (p.addType key n t) (f p.graph.size) R) : Leaves p (addType key n >>= f) R := hf

end Leaves

/-! ### Steps that look -/

namespace Reads

variable {α β : Type} {x : Convert α} {f : α → Convert β} {v : α} {w : β}

theorem pure (v : α) : Reads (pure v : Convert α) v := by
  intro σ a σ' hrun
  obtain ⟨rfl, rfl⟩ := Prod.mk.inj (Except.ok.inj hrun)
  exact ⟨rfl, rfl⟩

theorem throw (e : Fault) (v : α) : Reads (throw e : Convert α) v := by
  intro σ a σ' hrun
  exact absurd hrun (by simp [MonadExcept.throw, throwThe, MonadExceptOf.throw, StateT.run,
    StateT.lift, bind, Except.bind])

theorem bind (hx : Reads x v) (hf : Reads (f v) w) : Reads (x >>= f) w := by
  intro σ b σ' hrun
  rw [StateT.run_bind] at hrun
  obtain ⟨⟨a, σ₁⟩, hxrun, hfrun⟩ := exists_of_bind_eq_ok hrun
  obtain ⟨rfl, rfl⟩ := hx _ _ _ hxrun
  exact hf _ _ _ hfrun

/-- A check changes nothing. -/
theorem check (e : Except Fault Unit) : Reads (liftM e : Convert Unit) () := by
  intro σ a σ' hrun
  cases e with
  | error e => exact absurd hrun (by simp [liftM, monadLift, MonadLift.monadLift, StateT.run,
      StateT.lift, Functor.map, Except.map])
  | ok u =>
    obtain ⟨rfl, rfl⟩ := Prod.mk.inj (Except.ok.inj hrun)
    exact ⟨rfl, rfl⟩

end Reads

/-- The name of a declaration's own. -/
def Cursor.ownName (c : Cursor) : String := if c.isAnonymous then "" else c.spelling

/-- What tells the declaration of a cursor from all others. -/
def Cursor.key (c : Cursor) : String :=
  if !c.identity.isEmpty then c.identity
  else c.kind.name ++ "@" ++ c.location.file?.getD "" ++ ":" ++ Number.ofInt c.location.line ++ ":"
    ++ Number.ofInt c.location.column

namespace TranslationUnit

variable (u : TranslationUnit)

/-- The size of the type of a cursor. -/
def sizeOf (c : Cursor) : Int :=
  match c.type? with
  | some t => max (u.type t).size 0
  | none => 0

/-- The tokens of the initial value of a variable. -/
def initialValue (c : Cursor) : Value :=
  if c.kind = .var then
    match (c.children.filter fun child => (u.cursor child).kind.isExpression).getLast? with
    | some e => .text (spaced (u.cursor e).tokens)
    | none => .null
  else .null

/-- The markers of a function. -/
def markers (c : Cursor) : Value :=
  let isVariadic := match c.type? with
    | some t => (u.type t).kind == .prototype && (u.type t).isVariadic
    | none => false
  .tuple ((functionMarkers c.isDefinition (isInline c.spelling c.tokens) isVariadic).map .text)

end TranslationUnit

namespace Reads

open DeclGraph.Convert

theorem kindOf (c : Cursor) : Reads (kindOf c) c.kind := (check _).bind (.pure _)

theorem nameOf (c : Cursor) : Reads (nameOf c) c.spelling := (check _).bind (.pure _)

theorem ownNameOf (c : Cursor) : Reads (ownNameOf c) c.ownName := by
  rw [Convert.ownNameOf, Cursor.ownName]
  split_ifs
  · exact .pure _
  · exact .nameOf c

theorem typeOf (c : Cursor) : Reads (typeOf c) c.type? := (check _).bind (.pure _)

theorem sizeOf (u : TranslationUnit) (c : Cursor) : Reads (sizeOf u c) (.int (u.sizeOf c)) := by
  refine (typeOf c).bind ?_
  rw [TranslationUnit.sizeOf]
  cases c.type? with
  | some t => exact .pure _
  | none => exact .throw _ _

theorem keyOf (c : Cursor) : Reads (keyOf c) c.key := by
  refine (check _).bind ?_
  rw [Cursor.key]
  split_ifs
  · exact .pure _
  · exact (check _).bind ((check _).bind (.pure _))

theorem expressionsOf (u : TranslationUnit) (children : List CursorId) :
    Reads (expressionsOf u children)
      ((children.filter fun child => (u.cursor child).kind.isExpression).map u.cursor) := by
  induction children with
  | nil => exact .pure _
  | cons child rest ih =>
    refine (kindOf _).bind (ih.bind ?_)
    rw [List.filter_cons]
    split_ifs <;> exact .pure _

theorem initialValue (u : TranslationUnit) (c : Cursor) :
    Reads (initialValue u c) (u.initialValue c) := by
  refine (kindOf c).bind ?_
  rw [TranslationUnit.initialValue]
  split_ifs
  · refine (expressionsOf u c.children).bind ?_
    rw [List.getLast?_map]
    cases (c.children.filter fun child => (u.cursor child).kind.isExpression).getLast? with
    | some e => exact .pure _
    | none => exact .pure _
  · exact .pure _

theorem markersOf (s : ConversionSetting) (c : Cursor) :
    Reads (markersOf s c) (s.unit.markers c) := by
  refine (typeOf c).bind ?_
  rw [TranslationUnit.markers]
  cases c.type? with
  | some t => exact (check _).bind (.pure _)
  | none => exact .throw _ _

end Reads

end DeclGraph
