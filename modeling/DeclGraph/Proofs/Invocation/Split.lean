import DeclGraph.Invocation.Split
import DeclGraph.Proofs.Once

/-!
# What splitting does

The targets are taken out one after another, each from what the ones before it left.  All the same
what is left are the inputs that are no targets (`fst_extract`), and what is taken are the targets
that are inputs, each once (`snd_extract`): a target that was taken is not left for a second one,
and taking one away leaves the others where they are.

Splitting moves inputs but none of them changes its settings (`sourced`).  An input may be listed
several times and comes out once if it is a target, which is all that is lost
(`subperm_sourced_split`, `perm_sourced_split`).

Splitting once more by the same targets finds them in the invocations that were made for them alone,
and makes these again; all it adds is what remains of them, which has no inputs (`split_split`).
-/

namespace DeclGraph

namespace Invocation

variable {targets inputs : List String} {invs : List Invocation}

/-! ### Taking targets out -/

/-- What is left of a list of inputs are those that are no targets. -/
theorem fst_extract (targets inputs : List String) :
    (extract targets inputs).1 = inputs.filter (· ∉ targets) := by
  induction targets generalizing inputs with
  | nil => simp [extract]
  | cons target targets ih =>
    unfold extract
    split_ifs with hmem
    · -- the target goes first, then the others go from what is left
      show (extract targets (inputs.filter (· ≠ target))).1 = _
      rw [ih, List.filter_filter]
      refine List.filter_congr fun entry _ => ?_
      simp only [List.mem_cons, not_or, Bool.decide_and]
      exact Bool.and_comm _ _
    · -- there is nothing to take
      rw [List.contains_iff_mem] at hmem
      rw [ih]
      refine List.filter_congr fun entry hentry => ?_
      have hne : entry ≠ target := by
        rintro rfl
        exact hmem hentry
      simp [hne]

/-- What is taken from a list of inputs are the targets in it, each once. -/
theorem snd_extract (targets inputs : List String) :
    (extract targets inputs).2 = targets.eraseDups.filter (· ∈ inputs) := by
  induction targets generalizing inputs with
  | nil => simp [extract]
  | cons target targets ih =>
    rw [List.eraseDups_cons, ← filter_eraseDups]
    unfold extract
    split_ifs with hmem
    · -- what is taken later is no more this target
      rw [List.contains_iff_mem] at hmem
      show target :: (extract targets (inputs.filter (· ≠ target))).2 = _
      rw [ih, List.filter_cons_of_pos (by simpa using hmem), List.filter_filter]
      congr 1
      refine List.filter_congr fun entry _ => ?_
      simp [beq_eq_decide]
    · rw [List.contains_iff_mem] at hmem
      rw [ih, List.filter_cons_of_neg (by simpa using hmem), List.filter_filter]
      refine List.filter_congr fun entry _ => ?_
      by_cases hentry : entry ∈ inputs
      · have hne : entry ≠ target := by
          rintro rfl
          exact hmem hentry
        simp [hentry, hne]
      · simp [hentry]

/-- What remains of an invocation. -/
theorem remainder_eq (targets : List String) (inv : Invocation) :
    remainder targets inv = { inv with inputs := inv.inputs.filter (· ∉ targets) } := by
  rw [remainder, fst_extract]

/-- The invocations of the targets of an invocation. -/
theorem extracted_eq (targets : List String) (inv : Invocation) :
    extracted targets inv
      = (targets.eraseDups.filter (· ∈ inv.inputs)).map
          fun target => { inv with inputs := [target] } := by
  rw [extracted, snd_extract]

/-! ### The inputs and their settings -/

/-- All that an invocation says but its inputs. -/
def settings (inv : Invocation) : Invocation := { inv with inputs := [] }

/-- The inputs of invocations, each with the settings of its invocation. -/
def sourced (invs : List Invocation) : List (Invocation × String) :=
  invs.flatMap fun inv => inv.inputs.map (inv.settings, ·)

/-- What is left of a list of inputs and what is taken from it. -/
def rearranged (targets inputs : List String) : List String :=
  inputs.filter (· ∉ targets) ++ targets.eraseDups.filter (· ∈ inputs)

theorem mem_rearranged {entry : String} : entry ∈ rearranged targets inputs ↔ entry ∈ inputs := by
  simp only [rearranged, List.mem_append, List.mem_filter, List.mem_eraseDups, decide_eq_true_eq]
  tauto

/-- The inputs of the split invocations, in the order of the invocations they come from. -/
theorem perm_sourced_rearranged (invs : List Invocation) (targets : List String) :
    (sourced (split invs targets)).Perm
      (invs.flatMap fun inv => (rearranged targets inv.inputs).map (inv.settings, ·)) := by
  have hleft : sourced (invs.map (remainder targets))
      = invs.flatMap fun inv => (inv.inputs.filter (· ∉ targets)).map (inv.settings, ·) := by
    simp only [sourced, List.flatMap_map, remainder_eq]
    rfl
  have htaken : sourced (invs.flatMap (extracted targets))
      = invs.flatMap fun inv =>
          (targets.eraseDups.filter (· ∈ inv.inputs)).map (inv.settings, ·) := by
    simp only [sourced, List.flatMap_assoc, extracted_eq, List.flatMap_map]
    simp only [List.map_eq_flatMap]
    rfl
  have hsplit : sourced (split invs targets)
      = sourced (invs.map (remainder targets)) ++ sourced (invs.flatMap (extracted targets)) :=
    List.flatMap_append
  rw [hsplit, hleft, htaken]
  simp only [rearranged, List.map_append]
  exact List.flatMap_append_perm _ _ _

/-- An input is read with the same settings after a split as before. -/
theorem mem_sourced_split {p : Invocation × String} :
    p ∈ sourced (split invs targets) ↔ p ∈ sourced invs := by
  rw [(perm_sourced_rearranged invs targets).mem_iff]
  simp only [sourced, List.mem_flatMap, List.mem_map, mem_rearranged]

/-- The inputs that are no targets and those that are, as often as they are listed. -/
theorem perm_left_append (targets inputs : List String) :
    (inputs.filter (· ∉ targets) ++ inputs.filter (· ∈ targets)).Perm inputs := by
  simpa using List.filter_append_perm (· ∉ targets) inputs

/-- The targets in a list of inputs are taken from it once each. -/
theorem subperm_rearranged (targets inputs : List String) :
    (rearranged targets inputs).Subperm inputs := by
  have htaken : (targets.eraseDups.filter (· ∈ inputs)).Subperm (inputs.filter (· ∈ targets)) := by
    apply ((nodup_eraseDups targets).filter _).subperm
    intro entry
    simp only [List.mem_filter, List.mem_eraseDups, decide_eq_true_eq]
    exact And.symm
  exact ((List.subperm_append_left _).2 htaken).trans (perm_left_append targets inputs).subperm

/-- Nothing is lost of inputs that have each target at most once. -/
theorem perm_rearranged (h : ∀ target ∈ targets, inputs.count target ≤ 1) :
    (rearranged targets inputs).Perm inputs := by
  have hnodup : (inputs.filter (· ∈ targets)).Nodup := by
    rw [List.nodup_iff_count_le_one]
    intro entry
    by_cases hentry : entry ∈ targets
    · rw [List.count_filter (by simpa using hentry)]
      exact h entry hentry
    · have hnot : entry ∉ inputs.filter (· ∈ targets) := by simp [hentry]
      rw [List.count_eq_zero_of_not_mem hnot]
      exact Nat.zero_le 1
  have htaken : (targets.eraseDups.filter (· ∈ inputs)).Perm (inputs.filter (· ∈ targets)) := by
    rw [List.perm_ext_iff_of_nodup ((nodup_eraseDups targets).filter _) hnodup]
    intro entry
    simp only [List.mem_filter, List.mem_eraseDups, decide_eq_true_eq]
    exact and_comm
  exact (htaken.append_left _).trans (perm_left_append targets inputs)

/-- No input is read more often after a split than before. -/
theorem subperm_sourced_split (invs : List Invocation) (targets : List String) :
    (sourced (split invs targets)).Subperm (sourced invs) := by
  refine (perm_sourced_rearranged invs targets).subperm.trans ?_
  induction invs with
  | nil => exact List.Subperm.refl _
  | cons inv invs ih =>
    have hinv := (subperm_rearranged targets inv.inputs).map (Prod.mk_right_injective inv.settings)
    exact hinv.append ih

/-- Every input is read as often after a split as before if no invocation has a target twice. -/
theorem perm_sourced_split (h : ∀ inv ∈ invs, ∀ target ∈ targets, inv.inputs.count target ≤ 1) :
    (sourced (split invs targets)).Perm (sourced invs) := by
  refine (perm_sourced_rearranged invs targets).trans (List.Perm.flatMap_left invs ?_)
  intro inv hinv
  exact (perm_rearranged (h inv hinv)).map _

/-! ### The law of splitting -/

/-- What splitting does.  Every invocation remains, with the inputs that are no targets in their
order; behind them all, each invocation gives one for every target that it has as an input, a target
once and in the order of the targets, which has that input alone and all the settings.  So no input
gets lost, appears or changes its settings. -/
theorem split_law (invs : List Invocation) (targets : List String) :
    split invs targets
      = (invs.map fun inv => { inv with inputs := inv.inputs.filter (· ∉ targets) })
        ++ (invs.flatMap fun inv =>
            (targets.eraseDups.filter (· ∈ inv.inputs)).map
              fun target => { inv with inputs := [target] }) ∧
    ∀ p, p ∈ sourced (split invs targets) ↔ p ∈ sourced invs := by
  constructor
  · rw [split, funext (remainder_eq targets), funext (extracted_eq targets)]
  · intro p
    exact mem_sourced_split

/-- Targets and inputs that are listed twice. -/
example :
    (split [{ empty with inputs := ["a.c", "b.c", "a.c"] }, { empty with inputs := ["c.c"] }]
      ["c.c", "a.c", "c.c"]).map Invocation.inputs = [["b.c"], [], ["a.c"], ["c.c"]] := by decide

/-! ### Splitting again -/

/-- What remains of an invocation has no targets left to take. -/
theorem remainder_remainder (targets : List String) (inv : Invocation) :
    remainder targets (remainder targets inv) = remainder targets inv := by
  simp [remainder_eq, List.filter_filter]

theorem extracted_remainder (targets : List String) (inv : Invocation) :
    extracted targets (remainder targets inv) = [] := by
  rw [extracted_eq, remainder_eq, List.map_eq_nil_iff, List.filter_eq_nil_iff]
  intro target htarget
  simp [List.mem_eraseDups.1 htarget]

/-- An invocation made for a target has that target as its only input. -/
theorem exists_target_of_mem_extracted {inv moved : Invocation}
    (h : moved ∈ extracted targets inv) : ∃ target ∈ targets, moved.inputs = [target] := by
  rw [extracted_eq] at h
  obtain ⟨target, htarget, rfl⟩ := List.mem_map.1 h
  exact ⟨target, List.mem_eraseDups.1 (List.mem_filter.1 htarget).1, rfl⟩

/-- The only input of an invocation is taken from it if it is a target. -/
theorem remainder_of_inputs {inv : Invocation} {target : String} (htarget : target ∈ targets)
    (h : inv.inputs = [target]) : remainder targets inv = inv.settings := by
  rw [remainder_eq, h, List.filter_singleton]
  simp [htarget, settings]

/-- An invocation with one target as its only input gives itself again. -/
theorem extracted_of_inputs {inv : Invocation} {target : String} (htarget : target ∈ targets)
    (h : inv.inputs = [target]) : extracted targets inv = [inv] := by
  have htaken : targets.eraseDups.filter (· ∈ inv.inputs) = [target] := by
    -- of the targets, which are told apart, only this one is an input
    rw [← List.perm_singleton,
      List.perm_ext_iff_of_nodup ((nodup_eraseDups targets).filter _) (List.nodup_singleton _)]
    intro entry
    simp only [h, List.mem_filter, List.mem_eraseDups, List.mem_singleton, decide_eq_true_eq]
    exact ⟨And.right, fun heq => ⟨heq ▸ htarget, heq⟩⟩
  rw [extracted_eq, htaken, List.map_singleton, ← h]

/-- A second split by the same targets leaves what remained and makes the invocations of the targets
again; in between there is what remains of those that were made before. -/
theorem split_split (invs : List Invocation) (targets : List String) :
    split (split invs targets) targets
      = invs.map (remainder targets) ++ ((invs.flatMap (extracted targets)).map settings
          ++ invs.flatMap (extracted targets)) := by
  have hmoved : ∀ moved ∈ invs.flatMap (extracted targets),
      ∃ target ∈ targets, moved.inputs = [target] := by
    intro moved hmem
    obtain ⟨inv, -, hmem⟩ := List.mem_flatMap.1 hmem
    exact exists_target_of_mem_extracted hmem
  have hremaining : (invs.map (remainder targets)).map (remainder targets)
      = invs.map (remainder targets) := by
    simp only [List.map_map, Function.comp_def, remainder_remainder]
  -- no input that is left is a target
  have hnone : (invs.map (remainder targets)).flatMap (extracted targets) = [] := by
    simp only [List.flatMap_map, extracted_remainder, List.flatMap_eq_nil_iff, implies_true]
  -- what was moved before is moved again, and leaves its settings alone
  have hempty : (invs.flatMap (extracted targets)).map (remainder targets)
      = (invs.flatMap (extracted targets)).map settings := by
    refine List.map_congr_left fun moved hmem => ?_
    obtain ⟨target, htarget, hinputs⟩ := hmoved moved hmem
    exact remainder_of_inputs htarget hinputs
  have hagain : (invs.flatMap (extracted targets)).flatMap (extracted targets)
      = invs.flatMap (extracted targets) := by
    conv_rhs => rw [← List.flatMap_singleton' (invs.flatMap (extracted targets))]
    refine List.flatMap_congr fun moved hmem => ?_
    obtain ⟨target, htarget, hinputs⟩ := hmoved moved hmem
    exact extracted_of_inputs htarget hinputs
  calc split (split invs targets) targets
      = (invs.map (remainder targets) ++ invs.flatMap (extracted targets)).map (remainder targets)
          ++ (invs.map (remainder targets) ++ invs.flatMap (extracted targets)).flatMap
            (extracted targets) := rfl
    _ = (invs.map (remainder targets) ++ (invs.flatMap (extracted targets)).map settings)
          ++ ([] ++ invs.flatMap (extracted targets)) := by
        rw [List.map_append, List.flatMap_append, hremaining, hempty, hnone, hagain]
    _ = _ := by rw [List.nil_append, List.append_assoc]

/-- The invocations that have inputs. -/
def withInputs (invs : List Invocation) : List Invocation := invs.filter fun inv => inv.inputs ≠ []

/-- **Splitting again is harmless**: apart from invocations without inputs, a second split by the
same targets gives what the first one gave, in the same order. -/
theorem withInputs_split_split (invs : List Invocation) (targets : List String) :
    withInputs (split (split invs targets) targets) = withInputs (split invs targets) := by
  have hsettings (moved : List Invocation) : withInputs (moved.map settings) = [] := by
    refine List.filter_eq_nil_iff.2 fun inv hinv => ?_
    obtain ⟨whole, -, rfl⟩ := List.mem_map.1 hinv
    simp [settings]
  have happend (front back : List Invocation) :
      withInputs (front ++ back) = withInputs front ++ withInputs back :=
    List.filter_append front back
  rw [split_split, happend, happend, hsettings, List.nil_append, ← happend]
  rfl

/-- The target is taken once more, and the invocation that had it alone is left without inputs. -/
example :
    let once := split [{ empty with inputs := ["a.c", "b.c", "a.c"] }] ["a.c", "a.c"]
    once.map Invocation.inputs = [["b.c"], ["a.c"]] ∧
      (split once ["a.c", "a.c"]).map Invocation.inputs = [["b.c"], [], ["a.c"]] := by decide

end Invocation

end DeclGraph
