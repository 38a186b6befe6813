import DeclGraph.Projection.Projector
import DeclGraph.Proofs.Projection.Selection

/-!
# What is remembered changes no answer

`Projector.Agrees` is the invariant of rules that remember: whatever answer they keep for a class is
the answer of the rules.  `Projector.Gives` says of a computation that it comes to what it would come
to with the rules alone, and leaves the invariant in place; asking for a class is such a computation
(`Agrees.ask`).  Rules that remember are accepted just like the rules alone (`make?_eq`).
-/

namespace DeclGraph

namespace Projector

variable {κ : Type} [DecidableEq κ] {schemaOf : κ → Schema} {rules : Rules} {p : Projector κ}

/-- The rules are `rules`, and all answers that are kept are theirs. -/
structure Agrees (schemaOf : κ → Schema) (rules : Rules) (p : Projector κ) : Prop where
  /-- The rules. -/
  rules_eq : p.rules = rules
  /-- The answers are those of the rules. -/
  sound : ∀ c names, Entries.get? c p.answers = some names →
    rules.fieldsFor (schemaOf c) = .ok names

/-- A computation comes to `a`, and the rules that remember still agree with `rules`. -/
structure Gives {α : Type} (schemaOf : κ → Schema) (rules : Rules) (x : α × Projector κ) (a : α) :
    Prop where
  /-- What it comes to. -/
  result : x.1 = a
  /-- The rules afterwards. -/
  agrees : x.2.Agrees schemaOf rules

/-- A computation as what it comes to, and the rules that remember. -/
theorem Gives.exists_eq {α : Type} {x : α × Projector κ} {a : α} (h : Gives schemaOf rules x a) :
    ∃ q, x = (a, q) ∧ q.Agrees schemaOf rules :=
  ⟨x.2, Prod.ext h.result rfl, h.agrees⟩

theorem agrees_nil (rules : Rules) : Agrees schemaOf rules ⟨rules, []⟩ where
  rules_eq := rfl
  sound c names h := absurd h (by simp [Entries.get?])

/-- One more answer of the rules may be kept. -/
theorem Agrees.put (h : p.Agrees schemaOf rules) {c : κ} {names : List String}
    (hnames : rules.fieldsFor (schemaOf c) = .ok names) :
    Agrees schemaOf rules { p with answers := Entries.put c names p.answers } where
  rules_eq := h.rules_eq
  sound c' names' h' := by
    by_cases hc : c' = c
    · subst hc
      rw [Entries.get?_put_self] at h'
      rwa [← Option.some.inj h']
    · rw [Entries.get?_put_of_ne hc] at h'
      exact h.sound c' names' h'

/-- The answer for a class is that of the rules, whether it is kept or not. -/
theorem Agrees.ask (h : p.Agrees schemaOf rules) (c : κ) :
    Gives schemaOf rules (p.ask schemaOf c) (rules.fieldsFor (schemaOf c)) := by
  obtain ⟨kept, answers⟩ := p
  obtain rfl : kept = rules := h.rules_eq
  unfold Projector.ask
  cases hkept : Entries.get? c answers with
  | some names => exact ⟨(h.sound c names hkept).symm, h⟩
  | none =>
    dsimp only
    cases hnames : kept.fieldsFor (schemaOf c) with
    | error e => exact ⟨rfl, h⟩
    | ok names => exact ⟨rfl, h.put hnames⟩

/-! ### Accepted rules -/

/-- The whitelists pass the rules that remember just when they pass the rules, with the same error if
they do not, and what is kept afterwards are answers of the rules. -/
theorem Agrees.check (h : p.Agrees schemaOf rules) (known : Entries String κ)
    (lists : Whitelists) :
    (p.check schemaOf known lists).map Projector.rules
        = (rules.check (known.map fun e => (e.1, schemaOf e.2)) lists).map (fun _ => rules) ∧
      ∀ q, p.check schemaOf known lists = .ok q → q.Agrees schemaOf rules := by
  induction lists generalizing p with
  | nil =>
    refine ⟨congrArg Except.ok h.rules_eq, fun q hq => ?_⟩
    obtain rfl : p = q := Except.ok.inj hq
    exact h
  | cons entry rest ih =>
    obtain ⟨kind, whitelist⟩ := entry
    rw [Projector.check, Rules.check, Entries.get?_map]
    cases hknown : Entries.get? kind known with
    | none =>
      refine ⟨?_, fun q hq => absurd hq (by simp)⟩
      simp [Except.map, Entries.keys, Function.comp_def]
    | some c =>
      -- the class of a known kind is asked, and its answer remembered for the rest
      obtain ⟨q, hq, hagrees⟩ := (h.ask c).exists_eq
      simp only [hq, Option.map_some]
      cases hnames : rules.fieldsFor (schemaOf c) with
      | error e => exact ⟨rfl, fun q hq => absurd hq (by simp)⟩
      | ok names => exact ih hagrees

/-- Rules that remember are made just when the rules can be made, with the same error if they
cannot. -/
theorem make?_eq (schemaOf : κ → Schema) (blacklist : List String) (whitelists : Whitelists)
    (known : Entries String κ) :
    (make? schemaOf blacklist whitelists known).map Projector.rules
      = Rules.make? blacklist whitelists (known.map fun e => (e.1, schemaOf e.2)) := by
  have hagrees : Agrees schemaOf ⟨blacklist, whitelists⟩ ⟨⟨blacklist, whitelists⟩, []⟩ :=
    agrees_nil ⟨blacklist, whitelists⟩
  obtain ⟨hcheck, -⟩ := hagrees.check known whitelists
  refine hcheck.trans ?_
  unfold Rules.make?
  cases h : Rules.check ⟨blacklist, whitelists⟩ (known.map fun e => (e.1, schemaOf e.2))
      whitelists with
  | error e => simp only [h]; rfl
  | ok _ => simp only [h]; rfl

theorem agrees_of_make? {blacklist : List String} {whitelists : Whitelists}
    {known : Entries String κ} (h : make? schemaOf blacklist whitelists known = .ok p) :
    p.Agrees schemaOf ⟨blacklist, whitelists⟩ :=
  ((agrees_nil ⟨blacklist, whitelists⟩).check known whitelists).2 p h

end Projector

end DeclGraph
