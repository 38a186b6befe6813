import DeclGraph.Proofs.Invocation.Typing
import DeclGraph.Proofs.Json.Layout

/-!
# Documents of invocations are read back

The document of invocations is read as those invocations (`listOfJson_listToJson`), whatever their
texts are.  It is plain where the settings of each name are given once, as in a map
(`isPlain_listToJson`), so its text is read as the same invocations (`listOfText_listToText`).
-/

namespace DeclGraph

namespace Invocation

/-- No setting is named twice. -/
structure IsDistinct (inv : Invocation) : Prop where
  /-- The defined names differ. -/
  defines : (Entries.keys inv.defines).Nodup
  /-- The output categories differ. -/
  files : (Entries.keys inv.files).Nodup
  /-- The warning codes differ. -/
  warnings : (Entries.keys inv.warnings).Nodup

/-! ### The values of a document -/

/-- The entry of an invocation says what the invocation holds, in the same order. -/
theorem records_toJson (inv : Invocation) : ∃ members, inv.toJson = .object members ∧
    Records members inv := by
  refine ⟨_, rfl, ?_, .inl rfl, .inr rfl, .inr rfl, .inr rfl, .inr rfl, .inr rfl, .inr rfl,
    .inr rfl⟩
  exact show "input" ∈ ["cmd", "zc", "warn", "flag", "file", "input", "include", "define"] by decide

theorem listOfJson_listToJson (invs : List Invocation) :
    listOfJson (listToJson invs) = .ok invs := by
  have hrecorded : List.Forall₂
      (fun entry inv => ∃ members, entry = .object members ∧ Records members inv)
      (invs.map toJson) invs := by
    rw [List.forall₂_map_left_iff, List.forall₂_same]
    exact fun inv _ => records_toJson inv
  exact listFrom_eq_ok_iff.2 hrecorded

/-! ### The text of a document -/

theorem isPlain_textsToJson (texts : List String) : (textsToJson texts).IsPlain :=
  .array (List.forall_mem_map.2 fun text _ => .string text)

theorem isPlain_settingsToJson {settings : NamedSettings} (h : (Entries.keys settings).Nodup) :
    (settingsToJson settings).IsPlain := by
  refine .object (by simpa [Entries.keys, Function.comp_def] using h) ?_
  refine List.forall_mem_map.2 fun setting _ => ?_
  obtain ⟨name, value⟩ := setting
  cases value with
  | none => exact .null
  | some text => exact .string text

theorem isPlain_toJson {inv : Invocation} (h : inv.IsDistinct) : inv.toJson.IsPlain := by
  refine .object (show ["cmd", "zc", "warn", "flag", "file", "input", "include", "define"].Nodup by
    decide) ?_
  simp only [List.forall_mem_cons]
  exact ⟨.string _, isPlain_textsToJson _, isPlain_settingsToJson h.warnings,
    isPlain_textsToJson _, isPlain_settingsToJson h.files, isPlain_textsToJson _,
    isPlain_textsToJson _, isPlain_settingsToJson h.defines, List.forall_mem_nil _⟩

theorem isPlain_listToJson {invs : List Invocation} (h : ∀ inv ∈ invs, inv.IsDistinct) :
    (listToJson invs).IsPlain :=
  .array (List.forall_mem_map.2 fun inv hinv => isPlain_toJson (h inv hinv))

/-- The text of the document of invocations is read as those invocations. -/
theorem listOfText_listToText {invs : List Invocation} (h : ∀ inv ∈ invs, inv.IsDistinct) :
    listOfText (listToText invs) = .ok invs := by
  rw [listOfText, listToText, Json.parse_renderIndented (isPlain_listToJson h)]
  exact listOfJson_listToJson invs

/-- The text of the document of invocations holds no carriage return. -/
theorem return_notMem_listToText {invs : List Invocation} (h : ∀ inv ∈ invs, inv.IsDistinct) :
    '\r' ∉ (listToText invs).toList :=
  Json.return_notMem_renderIndented (isPlain_listToJson h)

end Invocation

end DeclGraph
