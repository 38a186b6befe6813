import DeclGraph.Proofs.TranslationUnit.Declarations

/-!
# Recipes of conversions

What one of the conversions of types and declarations does by itself, and what it asks the others
for, is its recipe: `Demand.recipe`.  Answering what is asked for with one unit of fuel less gives
the conversion itself (`Demand.within_succ`).

`Comes` follows recipes without any fuel.  It has a derivation exactly where the conversions come to
an end, and the derivation tells which bodies were entered on the way and in which order.  Where it
goes no deeper than the fuel lasts, the conversion comes to the same (`Comes.run`).
-/

namespace DeclGraph

/-! ### Recipes -/

/-- What is converted once: the components of a type, by what types are told apart by, or what is
in a declaration, by what tells it from all others. -/
inductive Body
  | type (key : TypeKind × String)
  | declaration (key : String)
deriving DecidableEq

/-- What conversions ask each other for, and what the answer is. -/
inductive Demand : Type → Type
  /-- The node of a type. -/
  | type (t? : Option TypeId) : Demand Value
  /-- The node of a type that is no declaration. -/
  | newType (t : CType) (fresh : Node) : Demand Value
  /-- The node of a record. -/
  | record (c : CursorId) (parent : Value) : Demand NodeId
  /-- A member of a record. -/
  | member (id : NodeId) (child : CursorId) : Demand Unit
  /-- The node of an enumeration. -/
  | enum (c : CursorId) (parent : Value) : Demand NodeId
  /-- The node of a defined type. -/
  | typedef (c : CursorId) (parent : Value) : Demand NodeId
  /-- The node of a field or a variable. -/
  | field (c : CursorId) (parent : Value) : Demand NodeId

/-- What a conversion does by itself, which bodies it enters and what it asks for. -/
inductive Recipe (α : Type) : Type 1
  | done (a : α)
  | own {β : Type} (x : Convert β) (next : β → Recipe α)
  | enter (b : Body) (next : Recipe α)
  | ask {β : Type} (q : Demand β) (next : β → Recipe α)

namespace Recipe

variable {α β : Type}

/-- One recipe after another. -/
def bind : Recipe α → (α → Recipe β) → Recipe β
  | done a, f => f a
  | own x next, f => .own x fun b => (next b).bind f
  | enter b next, f => .enter b (next.bind f)
  | ask q next, f => .ask q fun a => (next a).bind f

instance : Monad Recipe where
  pure := .done
  bind := .bind

/-- A step that asks for nothing. -/
def step (x : Convert α) : Recipe α := .own x .done

/-- A demand and nothing else. -/
def call (q : Demand α) : Recipe α := .ask q .done

/-- A body is entered. -/
def mark (b : Body) : Recipe Unit := .enter b (.done ())

theorem bind_done (P : Recipe α) : P.bind .done = P := by
  induction P with
  | done a => rfl
  | own x next ih => exact congrArg (Recipe.own x) (funext ih)
  | enter b next ih => exact congrArg (Recipe.enter b) ih
  | ask q next ih => exact congrArg (Recipe.ask q) (funext ih)

theorem bind_bind {γ : Type} (P : Recipe α) (f : α → Recipe β) (g : β → Recipe γ) :
    (P.bind f).bind g = P.bind fun a => (f a).bind g := by
  induction P with
  | done a => rfl
  | own x next ih => exact congrArg (Recipe.own x) (funext ih)
  | enter b next ih => exact congrArg (Recipe.enter b) ih
  | ask q next ih => exact congrArg (Recipe.ask q) (funext ih)

instance : LawfulMonad Recipe := LawfulMonad.mk' Recipe bind_done (fun _ _ => rfl) bind_bind

/-! ### Answers -/

/-- A recipe whose demands are answered. -/
def exec (answer : ∀ {β : Type}, Demand β → Convert β) : Recipe α → Convert α
  | done a => pure a
  | own x next => x >>= fun b => (next b).exec answer
  | enter _ next => next.exec answer
  | ask q next => answer q >>= fun a => (next a).exec answer

variable (answer : ∀ {β : Type}, Demand β → Convert β)

@[simp] theorem exec_pure (a : α) : exec answer (pure a) = pure a := rfl

@[simp] theorem exec_step (x : Convert α) : exec answer (step x) = x := bind_pure x

@[simp] theorem exec_call (q : Demand α) : exec answer (call q) = answer q := bind_pure (answer q)

@[simp] theorem exec_mark (b : Body) : exec answer (mark b) = pure () := rfl

@[simp] theorem exec_bind (P : Recipe α) (f : α → Recipe β) :
    exec answer (P >>= f) = exec answer P >>= fun a => exec answer (f a) := by
  induction P with
  | done a => rfl
  | own x next ih =>
    refine (congrArg (x >>= ·) (funext ih)).trans ?_
    exact (bind_assoc x _ _).symm
  | enter b next ih => exact ih
  | ask q next ih =>
    refine (congrArg (answer q >>= ·) (funext ih)).trans ?_
    exact (bind_assoc (answer q) _ _).symm

@[simp] theorem exec_map (f : α → β) (P : Recipe α) :
    exec answer (f <$> P) = f <$> exec answer P := by
  rw [map_eq_pure_bind, exec_bind, map_eq_pure_bind]
  rfl

@[simp] theorem exec_ite {p : Prop} [Decidable p] (P Q : Recipe α) :
    exec answer (if p then P else Q) = if p then exec answer P else exec answer Q :=
  apply_ite ..

@[simp] theorem exec_forM (f : α → Recipe Unit) (as : List α) :
    exec answer (forM as f) = forM as fun a => exec answer (f a) := by
  induction as with
  | nil => rfl
  | cons a rest ih => simp only [List.forM_cons, exec_bind, ih]

@[simp] theorem exec_mapM (f : α → Recipe β) (as : List α) :
    exec answer (as.mapM f) = as.mapM fun a => exec answer (f a) := by
  induction as with
  | nil => rfl
  | cons a rest ih => simp [List.mapM_cons, ih]

end Recipe

/-! ### The recipes of the conversions -/

namespace Recipe

open DeclGraph.Convert

variable (s : ConversionSetting)

/-- The recipe for a type. -/
def ofType : Option TypeId → Recipe Value
  | none => return .null
  | some id => do
    let t := s.unit.type id
    step (liftM (t.readable .kind))
    match t.kind.shape with
    | .elaborated => call (.type t.namedType?)
    | .record => return .node (← call (.record t.declaration .null))
    | .enum => return .node (← call (.enum t.declaration .null))
    | .typedef => return .node (← call (.typedef t.declaration .null))
    | _ =>
      match t.blank? with
      | some fresh => call (.newType t fresh)
      | none => return .null

/-- The recipe for the components of a type. -/
def ofComponents (t : CType) (id : NodeId) : Recipe Unit :=
  match t.kind.shape with
  | .pointer => do step (setField id "element_type" (← call (.type t.pointee?)))
  | .array _ => do step (setField id "element_type" (← call (.type t.elementType?)))
  | .function prototyped => do
    step (setField id "return_type" (← call (.type t.result?)))
    if prototyped then
      step (setField id "is_variadic" (.bool t.isVariadic))
      let parameters ← t.arguments.mapM fun argument => do
        let type ← call (.type (some argument))
        step (add (.make .parameter [("name", .text ""), ("type", type), ("parent", .node id)]))
      step (setField id "parameters" (.nodes parameters))
  | _ => return ()

/-- The recipe for a type that is no declaration. -/
def ofNewType (t : CType) (fresh : Node) : Recipe Value := do
  step (liftM (t.readable .spelling))
  match ← step (converted? t.key) with
  | some id => return .node id
  | none =>
    let id ← step (addType t.key fresh)
    mark (.type t.key)
    ofComponents t id
    return .node id

/-- The recipe for what is in a record. -/
def ofRecordBody (c : Cursor) (id : NodeId) : Recipe NodeId := do
  if !c.isDefinition || ((← step (node id)).get "is_definition").isTrue then return id
  step (setField id "is_definition" (.bool true))
  mark (.declaration c.key)
  step (setField id "size_of" (← step (sizeOf s.unit c)))
  step (setField id "span" (← step (spanOf c)))
  c.children.forM fun child => call (.member id child)
  return id

/-- The recipe for a record. -/
def ofRecord (cursor : CursorId) (parent : Value) : Recipe NodeId := do
  let c := s.unit.cursor cursor
  let key ← step (keyOf c)
  match ← step (declared? key .record) with
  | some id =>
    step (adopt id parent)
    ofRecordBody s c id
  | none =>
    let id ← step (newRecord s c parent)
    step (declare key id)
    ofRecordBody s c id

/-- The recipe for a member of a record. -/
def ofMember (id : NodeId) (child : CursorId) : Recipe Unit := do
  let c := s.unit.cursor child
  let kind ← step (kindOf c)
  if kind = .field then step (append id "fields" (← call (.field child (.node id))))
  else if kind.isRecord then step (appendOnce id "classes" (← call (.record child (.node id))))
  else if kind = .enum then step (appendOnce id "enums" (← call (.enum child (.node id))))
  else if kind.isAttribute then step (append id "attributes" (← step (addAttribute c (.node id))))

/-- The recipe for an enumeration. -/
def ofEnum (cursor : CursorId) (parent : Value) : Recipe NodeId := do
  let c := s.unit.cursor cursor
  let key ← step (keyOf c)
  match ← step (declared? key .enum) with
  | some id =>
    step (adopt id parent)
    return id
  | none =>
    let id ← step (newEnum s c parent)
    step (declare key id)
    mark (.declaration c.key)
    step (setField id "integer_type" (← call (.type c.enumType?)))
    step (c.children.forM (addItem s id))
    return id

/-- The recipe for a defined type. -/
def ofTypedef (cursor : CursorId) (parent : Value) : Recipe NodeId := do
  let c := s.unit.cursor cursor
  let key ← step (keyOf c)
  match ← step (declared? key .typedef) with
  | some id =>
    step (adopt id parent)
    return id
  | none =>
    let id ← step (newTypedef s c parent)
    step (declare key id)
    mark (.declaration c.key)
    step (setField id "element_type" (← call (.type c.underlyingType?)))
    return id

/-- The recipe for a field or a variable. -/
def ofField (cursor : CursorId) (parent : Value) : Recipe NodeId := do
  let c := s.unit.cursor cursor
  let name ← step (nameOf c)
  let type ← call (.type (← step (typeOf c)))
  let initial ← step (initialValue s.unit c)
  let span ← step (spanOf c)
  let id ← step (add (.make .field [("name", .text name), ("type", type),
    ("bit_field_width", .int (c.bitWidth?.getD 0)),
    ("storage_qualifier", .text (storageName c.storage)), ("init_value", initial),
    ("comment", commentOf s c), ("span", span), ("parent", parent)]))
  step (setField id "attributes" (.nodes (← step (addAttributes s.unit (.node id) c.children))))
  return id

end Recipe

namespace Demand

open DeclGraph.Convert

variable (s : ConversionSetting)

/-- What is to be done for a demand. -/
def recipe {α : Type} : Demand α → Recipe α
  | .type t? => .ofType s t?
  | .newType t fresh => .ofNewType t fresh
  | .record c parent => .ofRecord s c parent
  | .member id child => .ofMember s id child
  | .enum c parent => .ofEnum s c parent
  | .typedef c parent => .ofTypedef s c parent
  | .field c parent => .ofField s c parent

/-- The conversion that answers a demand with some fuel. -/
def within (fuel : Nat) {α : Type} : Demand α → Convert α
  | .type t? => typeWithin s fuel t?
  | .newType t fresh => newTypeWithin s fuel t fresh
  | .record c parent => recordWithin s fuel c parent
  | .member id child => memberWithin s fuel id child
  | .enum c parent => enumWithin s fuel c parent
  | .typedef c parent => typedefWithin s fuel c parent
  | .field c parent => fieldWithin s fuel c parent

variable {s} {fuel : Nat}

theorem within_type (t? : Option TypeId) :
    typeWithin s (fuel + 1) t? = (Recipe.ofType s t?).exec (within s fuel) := by
  cases t? with
  | none =>
    rw [typeWithin]
    rfl
  | some t =>
    rw [typeWithin, Recipe.ofType]
    simp only [Recipe.exec_bind, Recipe.exec_step]
    congr! 2
    unfold CType.blank?
    -- The ways that lead to a new type differ in the node that is asked for.
    cases (s.unit.type t).kind.shape <;> simp [within]

theorem within_newType (t : CType) (fresh : Node) :
    newTypeWithin s (fuel + 1) t fresh = (Recipe.ofNewType t fresh).exec (within s fuel) := by
  have components (id : NodeId) :
      fillType s fuel t id = (Recipe.ofComponents t id).exec (within s fuel) := by
    unfold fillType Recipe.ofComponents
    cases t.kind.shape <;> simp [within]
  rw [newTypeWithin_succ, Recipe.ofNewType]
  simp only [Recipe.exec_bind, Recipe.exec_step]
  congr! 4 with _ found
  cases found <;> simp [components, CType.key]

theorem within_record (c : CursorId) (parent : Value) :
    recordWithin s (fuel + 1) c parent = (Recipe.ofRecord s c parent).exec (within s fuel) := by
  have body (id : NodeId) : fillRecord s fuel (s.unit.cursor c) id =
      (Recipe.ofRecordBody s (s.unit.cursor c) id).exec (within s fuel) := by
    simp [fillRecord, Recipe.ofRecordBody, within]
  rw [recordWithin_succ, Recipe.ofRecord]
  simp only [Recipe.exec_bind, Recipe.exec_step]
  congr! 4 with _ found
  cases found <;> simp [body]

theorem within_member (id : NodeId) (child : CursorId) :
    memberWithin s (fuel + 1) id child = (Recipe.ofMember s id child).exec (within s fuel) := by
  simp [memberWithin, Recipe.ofMember, within]

theorem within_enum (c : CursorId) (parent : Value) :
    enumWithin s (fuel + 1) c parent = (Recipe.ofEnum s c parent).exec (within s fuel) := by
  rw [enumWithin_succ, Recipe.ofEnum]
  simp only [Recipe.exec_bind, Recipe.exec_step]
  congr! 4 with _ found
  cases found <;> simp [within]

theorem within_typedef (c : CursorId) (parent : Value) :
    typedefWithin s (fuel + 1) c parent = (Recipe.ofTypedef s c parent).exec (within s fuel) := by
  rw [typedefWithin, Recipe.ofTypedef]
  simp only [Recipe.exec_bind, Recipe.exec_step]
  congr! 4 with _ found
  cases found <;> simp [within]

theorem within_field (c : CursorId) (parent : Value) :
    fieldWithin s (fuel + 1) c parent = (Recipe.ofField s c parent).exec (within s fuel) := by
  simp [fieldWithin, Recipe.ofField, within]

/-- The recipes are those of the conversions. -/
theorem within_succ {α : Type} (fuel : Nat) (q : Demand α) :
    q.within s (fuel + 1) = (q.recipe s).exec (within s fuel) := by
  cases q with
  | type t? => exact within_type t?
  | newType t fresh => exact within_newType t fresh
  | record c parent => exact within_record c parent
  | member id child => exact within_member id child
  | enum c parent => exact within_enum c parent
  | typedef c parent => exact within_typedef c parent
  | field c parent => exact within_field c parent

end Demand

/-! ### Without fuel -/

section

variable (s : ConversionSetting)

/-- What a recipe comes to when each demand is answered by following its own recipe, with the bodies
that are entered on the way and a bound on how many demands are open at once. -/
inductive Comes : {α : Type} → Nat → Recipe α → Conversion → List Body →
    Except Fault (α × Conversion) → Prop
  | done {α : Type} {d : Nat} {a : α} {σ : Conversion} : Comes d (.done a) σ [] (.ok (a, σ))
  | own {α β : Type} {d : Nat} {x : Convert β} {next : β → Recipe α} {σ σ₁ : Conversion} {b : β}
      {bodies : List Body} {r : Except Fault (α × Conversion)} (h : x.run σ = .ok (b, σ₁))
      (hnext : Comes d (next b) σ₁ bodies r) : Comes d (.own x next) σ bodies r
  | ownFails {α β : Type} {d : Nat} {x : Convert β} {next : β → Recipe α} {σ : Conversion}
      {e : Fault} (h : x.run σ = .error e) : Comes d (.own x next) σ [] (.error e)
  | enter {α : Type} {d : Nat} {b : Body} {next : Recipe α} {σ : Conversion} {bodies : List Body}
      {r : Except Fault (α × Conversion)} (hnext : Comes d next σ bodies r) :
      Comes d (.enter b next) σ (b :: bodies) r
  | ask {α β : Type} {d : Nat} {q : Demand β} {next : β → Recipe α} {σ σ₁ : Conversion} {b : β}
      {bodies bodies' : List Body} {r : Except Fault (α × Conversion)}
      (h : Comes d (q.recipe s) σ bodies (.ok (b, σ₁)))
      (hnext : Comes (d + 1) (next b) σ₁ bodies' r) :
      Comes (d + 1) (.ask q next) σ (bodies ++ bodies') r
  | askFails {α β : Type} {d : Nat} {q : Demand β} {next : β → Recipe α} {σ : Conversion}
      {bodies : List Body} {e : Fault} (h : Comes d (q.recipe s) σ bodies (.error e)) :
      Comes (d + 1) (.ask q next) σ bodies (.error e)

end

namespace Comes

variable {s : ConversionSetting} {α : Type} {d d' : Nat} {P : Recipe α} {σ : Conversion}
  {bodies : List Body} {r : Except Fault (α × Conversion)}

theorem mono (h : Comes s d P σ bodies r) (hd : d ≤ d') : Comes s d' P σ bodies r := by
  induction h generalizing d' with
  | done => exact .done
  | own h _ ih => exact .own h (ih hd)
  | ownFails h => exact .ownFails h
  | enter _ ih => exact .enter (ih hd)
  | ask _ _ ih ihnext =>
    obtain ⟨d', rfl⟩ := Nat.exists_eq_succ_of_ne_zero (Nat.ne_zero_of_lt hd)
    exact .ask (ih (Nat.succ_le_succ_iff.1 hd)) (ihnext hd)
  | askFails _ ih =>
    obtain ⟨d', rfl⟩ := Nat.exists_eq_succ_of_ne_zero (Nat.ne_zero_of_lt hd)
    exact .askFails (ih (Nat.succ_le_succ_iff.1 hd))

/-- Where the fuel lasts, the conversion comes to what the recipes come to without any. -/
theorem run (h : Comes s d P σ bodies r) {fuel : Nat} (hd : d ≤ fuel) :
    (P.exec (Demand.within s fuel)).run σ = r := by
  induction h generalizing fuel with
  | done => rfl
  | own h _ ih =>
    rw [Recipe.exec, StateT.run_bind, h]
    exact ih hd
  | ownFails h =>
    rw [Recipe.exec, StateT.run_bind, h]
    rfl
  | enter _ ih => exact ih hd
  -- a call takes one step of fuel, and what comes behind it has as much as before
  | ask _ _ ih ihnext =>
    obtain ⟨fuel, rfl⟩ := Nat.exists_eq_succ_of_ne_zero (Nat.ne_zero_of_lt hd)
    have hanswer := ih (Nat.succ_le_succ_iff.1 hd)
    rw [← Demand.within_succ] at hanswer
    rw [Recipe.exec, StateT.run_bind, hanswer]
    exact ihnext hd
  | askFails _ ih =>
    obtain ⟨fuel, rfl⟩ := Nat.exists_eq_succ_of_ne_zero (Nat.ne_zero_of_lt hd)
    have hanswer := ih (Nat.succ_le_succ_iff.1 hd)
    rw [← Demand.within_succ] at hanswer
    rw [Recipe.exec, StateT.run_bind, hanswer]
    rfl

end Comes

end DeclGraph
