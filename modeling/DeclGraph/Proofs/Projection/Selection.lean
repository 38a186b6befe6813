import DeclGraph.Projection.Rules
import DeclGraph.Proofs.Entries
import DeclGraph.Proofs.Except

/-!
# What rules select

`Rules.projection` are the fields that rules select of a type, told apart from the question whether
the rules can be applied to the type at all, which is `Rules.Fits`.  `Rules.fieldsFor_eq_ok_iff` says
that a type has its projection as answer exactly if the rules fit it, and `Rules.make?_eq_ok_iff`
that rules are accepted exactly if every whitelist is one of a known kind that the rules fit;
`Rules.make?_standardKinds_eq_ok_iff` says what that means for the declarations.
-/

namespace DeclGraph

namespace Rules

variable {rules : Rules} {schema : Schema} {names : List String}

/-- Whether rules select a field of a kind: a whitelist of the kind decides, if there is one, and
otherwise the blacklist. -/
def selects (rules : Rules) (kindName field : String) : Bool :=
  match Entries.get? kindName rules.whitelists with
  | some whitelist => whitelist.contains field
  | none => !rules.blacklist.contains field

/-- The selected fields of a type, in the order in which the type has them. -/
def projection (rules : Rules) (schema : Schema) : List String :=
  (schema.fieldNames?.getD []).filter (rules.selects schema.kindName)

/-- The rules can be applied to a type: its values are nodes, and a whitelist of its kind names
fields of the type only. -/
structure Fits (rules : Rules) (schema : Schema) : Prop where
  /-- The values of the type are nodes. -/
  isNode : schema.fieldNames?.isSome
  /-- The whitelist of its kind names its fields only. -/
  subset : ∀ whitelist, Entries.get? schema.kindName rules.whitelists = some whitelist →
    whitelist ⊆ schema.fieldNames?.getD []

/-- The selected fields of a node are fields of it, in order. -/
theorem sublist_projection (rules : Rules) (n : Node) :
    (rules.projection n.schema).Sublist n.fieldNames :=
  List.filter_sublist

/-- A type that the rules fit has its projection as answer. -/
theorem fieldsFor_of_fits (h : rules.Fits schema) :
    rules.fieldsFor schema = .ok (rules.projection schema) := by
  obtain ⟨available, havailable⟩ := Option.isSome_iff_exists.1 h.isNode
  have hsubset := h.subset
  unfold fieldsFor projection
  rw [havailable] at hsubset ⊢
  cases hlist : Entries.get? schema.kindName rules.whitelists with
  | none =>
    have hselects : rules.selects schema.kindName = fun name => !rules.blacklist.contains name := by
      funext name; rw [selects, hlist]
    rw [hselects]; rfl
  | some whitelist =>
    have hselects : rules.selects schema.kindName = fun name => whitelist.contains name := by
      funext name; rw [selects, hlist]
    have hfind : (whitelist.find? fun name => !available.contains name) = none := by
      refine List.find?_eq_none.2 fun name hname => ?_
      simpa using hsubset whitelist hlist hname
    rw [hselects]
    simp only [hfind, Option.getD_some]

/-- The rules fit every type that has an answer. -/
theorem fits_of_fieldsFor (h : rules.fieldsFor schema = .ok names) : rules.Fits schema := by
  unfold fieldsFor at h
  cases havailable : schema.fieldNames? with
  | none => rw [havailable] at h; exact absurd h (by simp)
  | some available =>
    refine ⟨by simp [havailable], fun whitelist hlist name hname => ?_⟩
    simp only [havailable, hlist] at h
    cases hfind : whitelist.find? fun name => !available.contains name with
    | some missing => rw [hfind] at h; exact absurd h (by simp)
    | none => simpa [havailable] using List.find?_eq_none.1 hfind name hname

/-- A type has its projection as answer exactly if the rules fit it, and no other answer. -/
theorem fieldsFor_eq_ok_iff :
    rules.fieldsFor schema = .ok names ↔ rules.Fits schema ∧ names = rules.projection schema := by
  constructor
  · intro h
    have hfits := fits_of_fieldsFor h
    rw [fieldsFor_of_fits hfits] at h
    exact ⟨hfits, (Except.ok.inj h).symm⟩
  · rintro ⟨hfits, rfl⟩
    exact fieldsFor_of_fits hfits

/-! ### Accepted rules -/

/-- A list of whitelists passes exactly if every whitelist is one of a known kind that the rules
fit. -/
theorem check_eq_ok_iff {known : Entries String Schema} {lists : Whitelists} :
    rules.check known lists = .ok () ↔
      ∀ kind ∈ Entries.keys lists, ∃ schema, Entries.get? kind known = some schema ∧
        rules.Fits schema := by
  induction lists with
  | nil => simp [check, Entries.keys]
  | cons e rest ih =>
    obtain ⟨kind, whitelist⟩ := e
    have hkeys : Entries.keys ((kind, whitelist) :: rest) = kind :: Entries.keys rest := rfl
    rw [check, hkeys, List.forall_mem_cons, ← ih]
    cases hknown : Entries.get? kind known with
    | none => simp
    | some schema =>
      simp only [Option.some.injEq, exists_eq_left']
      constructor
      · intro h
        obtain ⟨names, hnames, hrest⟩ := exists_of_bind_eq_ok h
        exact ⟨fits_of_fieldsFor hnames, hrest⟩
      · rintro ⟨hfits, hrest⟩
        simp [fieldsFor_of_fits hfits, hrest, bind, Except.bind]

/-- Rules are accepted exactly if every whitelist is one of a known kind that the rules fit, and
they are what they are made of. -/
theorem make?_eq_ok_iff {blacklist : List String} {whitelists : Whitelists}
    {known : Entries String Schema} :
    make? blacklist whitelists known = .ok rules ↔
      rules = ⟨blacklist, whitelists⟩ ∧
        ∀ kind ∈ Entries.keys rules.whitelists, ∃ schema, Entries.get? kind known = some schema ∧
          rules.Fits schema := by
  constructor
  · intro h
    obtain ⟨_, hcheck, hok⟩ := exists_of_bind_eq_ok h
    obtain rfl : _ = rules := Except.ok.inj hok
    exact ⟨rfl, check_eq_ok_iff.1 hcheck⟩
  · rintro ⟨rfl, h⟩
    simp [make?, check_eq_ok_iff.2 h, bind, Except.bind, pure, Except.pure]

/-- A kind that is spoken of is one of the declarations. -/
theorem get?_standardKinds {name : String} {schema : Schema}
    (h : Entries.get? name standardKinds = some schema) :
    ∃ kind ∈ Kind.declarations, kind.name = name ∧ schema = .ofKind kind := by
  obtain ⟨kind, hkind, heq⟩ := List.mem_map.1 (Entries.mem_of_get? h)
  obtain ⟨rfl, rfl⟩ := Prod.mk.inj heq
  exact ⟨kind, hkind, rfl, rfl⟩

/-- Every declaration can be spoken of. -/
theorem get?_standardKinds_name {kind : Kind} (h : kind ∈ Kind.declarations) :
    Entries.get? kind.name standardKinds = some (.ofKind kind) :=
  Entries.get?_of_mem (by decide) (List.mem_map.2 ⟨kind, h, rfl⟩)

/-- Rules that may speak of the declarations are accepted exactly if every whitelist names fields of
the declaration that it is for. -/
theorem make?_standardKinds_eq_ok_iff {blacklist : List String} {whitelists : Whitelists} :
    make? blacklist whitelists standardKinds = .ok rules ↔
      rules = ⟨blacklist, whitelists⟩ ∧
        ∀ name whitelist, Entries.get? name rules.whitelists = some whitelist →
          ∃ kind ∈ Kind.declarations, kind.name = name ∧ whitelist ⊆ kind.fieldNames := by
  rw [make?_eq_ok_iff]
  refine and_congr_right fun _ => ⟨fun h name whitelist hlist => ?_, fun h name hname => ?_⟩
  · obtain ⟨schema, hschema, hfits⟩ :=
      h name (List.mem_map_of_mem (f := Prod.fst) (Entries.mem_of_get? hlist))
    obtain ⟨kind, hkind, rfl, rfl⟩ := get?_standardKinds hschema
    exact ⟨kind, hkind, rfl, hfits.subset whitelist hlist⟩
  · obtain ⟨whitelist, hlist⟩ := Entries.exists_of_mem_keys hname
    obtain ⟨kind, hkind, rfl, hsubset⟩ := h name whitelist hlist
    refine ⟨.ofKind kind, get?_standardKinds_name hkind, rfl, fun whitelist' hlist' => ?_⟩
    obtain rfl := Option.some.inj (hlist.symm.trans hlist')
    exact hsubset

end Rules

end DeclGraph
