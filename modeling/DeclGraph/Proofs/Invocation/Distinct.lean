import DeclGraph.Invocation.Split
import DeclGraph.Proofs.Invocation.Document
import DeclGraph.Proofs.Json.Proper

/-!
# Invocations from documents name nothing twice

The settings of an invocation come from an object, which names nothing twice when it has been
parsed; so the settings of an invocation that was read are distinct (`isDistinct_of_listOfText`).
Moving inputs into invocations of their own leaves the settings as they are (`isDistinct_of_split`).
-/

namespace DeclGraph

namespace Invocation

open Json

/-- The settings that an object says stand in it as an object, which names nothing twice. -/
theorem nodup_keys_of_settings {members : List (String × Json)} {key : String}
    {settings : NamedSettings} (hobject : (Json.object members).IsProper)
    (h : Says members key settingsToJson settings) : (Entries.keys settings).Nodup := by
  rcases h with ⟨-, rfl⟩ | hget
  · exact List.nodup_nil
  · cases hobject with
    | object _ hproper =>
      have hsettings := hproper _ (Entries.mem_of_get? hget)
      rw [settingsToJson_eq] at hsettings
      cases hsettings with
      | object hnodup _ => simpa [Entries.keys, Function.comp_def] using hnodup

theorem isDistinct_of_ofJson {index : Nat} {entry : Json} {inv : Invocation}
    (hentry : entry.IsProper) (h : ofJson index entry = .ok inv) : inv.IsDistinct := by
  obtain ⟨members, rfl, hrecords⟩ := ofJson_eq_ok_iff.1 h
  exact ⟨nodup_keys_of_settings hentry hrecords.defines,
    nodup_keys_of_settings hentry hrecords.files, nodup_keys_of_settings hentry hrecords.warnings⟩

theorem isDistinct_of_listFrom {index : Nat} {entries : List Json} {invs : List Invocation}
    (hentries : ∀ v ∈ entries, v.IsProper) (h : listFrom index entries = .ok invs) :
    ∀ inv ∈ invs, inv.IsDistinct := by
  induction entries generalizing index invs with
  | nil =>
    obtain rfl := Except.ok.inj h
    exact List.forall_mem_nil _
  | cons entry entries ih =>
    obtain ⟨hentry, hentries⟩ := List.forall_mem_cons.1 hentries
    obtain ⟨inv, hinv, h⟩ := exists_of_bind_eq_ok h
    obtain ⟨rest, hrest, h⟩ := exists_of_bind_eq_ok h
    obtain rfl := Except.ok.inj h
    exact List.forall_mem_cons.2 ⟨isDistinct_of_ofJson hentry hinv, ih hentries hrest⟩

/-- An invocation that is read from a document names no setting twice. -/
theorem isDistinct_of_listOfText {text : String} {invs : List Invocation}
    (h : listOfText text = .ok invs) : ∀ inv ∈ invs, inv.IsDistinct := by
  unfold listOfText at h
  split at h
  · next v hparse =>
    unfold listOfJson at h
    split at h
    · cases isProper_of_parse hparse with
      | array hentries => exact isDistinct_of_listFrom hentries h
    · exact absurd h (by simp)
  · exact absurd h (by simp)

/-- Moving inputs changes no settings. -/
theorem isDistinct_of_split {invs : List Invocation} (h : ∀ inv ∈ invs, inv.IsDistinct)
    (targets : List String) : ∀ inv ∈ split invs targets, inv.IsDistinct := by
  intro inv hinv
  rcases List.mem_append.1 hinv with hinv | hinv
  · obtain ⟨whole, hwhole, rfl⟩ := List.mem_map.1 hinv
    exact ⟨(h whole hwhole).defines, (h whole hwhole).files, (h whole hwhole).warnings⟩
  · obtain ⟨whole, hwhole, hextracted⟩ := List.mem_flatMap.1 hinv
    obtain ⟨target, -, rfl⟩ := List.mem_map.1 hextracted
    exact ⟨(h whole hwhole).defines, (h whole hwhole).files, (h whole hwhole).warnings⟩

end Invocation

end DeclGraph
