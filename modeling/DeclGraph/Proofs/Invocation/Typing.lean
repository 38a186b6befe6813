import DeclGraph.Failure
import DeclGraph.Proofs.Entries
import DeclGraph.Proofs.Except

/-!
# Which documents give invocations

A document is well typed if it is a list of objects that say what their inputs are and in which
every value has the form of its key (`Invocation.IsTyped`).  For the name of a compiler whatever
counts as absent does as well as a text (`Invocation.IsName`).

Main statement: `Invocation.listOfJson_typed`.  The documents that are accepted are the well typed
ones, and their invocations hold what the entries say; any other list is refused with an error of
the configuration that names its first entry that is not well typed.  Each reader is turned around
first: whatever it reads is a value of one form only (`Invocation.readTexts_eq_ok_iff`,
`Invocation.readSettings_eq_ok_iff`, `Invocation.ofJson_eq_ok_iff`), and what it refuses it refuses
with an error about the entry that it reads (`Invocation.failsIn_ofJson`).
-/

namespace DeclGraph

open Invocation (textsToJson)

/-! ### Forms -/

namespace Json

theorem string?_eq_some_iff {v : Json} {s : String} : v.string? = some s ↔ v = .string s := by
  cases v <;> simp [string?]

/-- Only arrays of strings are read as texts. -/
theorem strings?_eq_some_iff {v : Json} {texts : List String} :
    v.strings? = some texts ↔ v = textsToJson texts := by
  have hitems (items : List Json) (texts : List String) :
      items.mapM string? = some texts ↔ items = texts.map .string := by
    induction items generalizing texts with
    | nil => cases texts <;> simp
    | cons item rest ih =>
      cases texts with
      | nil => simp [Option.bind_eq_some_iff]
      | cons text others => simp [Option.bind_eq_some_iff, string?_eq_some_iff, ih]
  cases v with
  | array items => rw [strings?, textsToJson, array.injEq, hitems]
  | null | bool b | int n | float x | string s | object members => simp [strings?, textsToJson]

end Json

namespace Invocation

/-- A text. -/
def IsText (v : Json) : Prop := ∃ s, v = .string s

/-- A list of texts. -/
def IsTexts (v : Json) : Prop := ∃ items, v = .array items ∧ ∀ item ∈ items, IsText item

/-- Named settings, each with a text or with none. -/
def IsSettings (v : Json) : Prop :=
  ∃ members, v = .object members ∧ ∀ e ∈ members, e.2 = .null ∨ IsText e.2

/-- What is taken for the name of a compiler: a text, or whatever counts as absent. -/
def IsName (v : Json) : Prop := v.isFalsy ∨ IsText v

theorem exists_textsToJson_iff {v : Json} : (∃ texts, v = textsToJson texts) ↔ IsTexts v := by
  constructor
  · rintro ⟨texts, rfl⟩
    exact ⟨texts.map .string, rfl, List.forall_mem_map.2 fun s _ => ⟨s, rfl⟩⟩
  · rintro ⟨items, rfl, hitems⟩
    obtain ⟨texts, rfl⟩ : ∃ texts : List String, texts.map Json.string = items := by
      rw [← Set.mem_range, Set.range_list_map]
      intro item hitem
      obtain ⟨s, rfl⟩ := hitems item hitem
      exact ⟨s, rfl⟩
    exact ⟨texts, rfl⟩

/-- The value of a setting as a value of a document. -/
def settingToJson : Option String → Json
  | some s => .string s
  | none => .null

theorem settingsToJson_eq (settings : NamedSettings) :
    settingsToJson settings = .object (settings.map fun e => (e.1, settingToJson e.2)) := by
  refine congrArg Json.object (List.map_congr_left fun e _ => ?_)
  obtain ⟨name, value⟩ := e
  cases value <;> rfl

theorem exists_settingsToJson_iff {v : Json} :
    (∃ settings, v = settingsToJson settings) ↔ IsSettings v := by
  constructor
  · rintro ⟨settings, rfl⟩
    refine ⟨_, settingsToJson_eq settings, List.forall_mem_map.2 fun e _ => ?_⟩
    cases e.2 with
    | none => exact .inl rfl
    | some s => exact .inr ⟨s, rfl⟩
  · rintro ⟨members, rfl, hmembers⟩
    obtain ⟨settings, rfl⟩ : ∃ settings : NamedSettings,
        settings.map (fun e => (e.1, settingToJson e.2)) = members := by
      rw [← Set.mem_range, Set.range_list_map]
      rintro ⟨name, v⟩ hmember
      rcases hmembers _ hmember with h | ⟨s, h⟩
      · exact ⟨(name, none), Prod.ext rfl h.symm⟩
      · exact ⟨(name, some s), Prod.ext rfl h.symm⟩
    exact ⟨settings, (settingsToJson_eq settings).symm⟩

/-! ### What an entry says -/

variable {members : List (String × Json)} {entry : Json} {entries : List Json} {inv : Invocation}
  {invs : List Invocation} {index : Nat} {key : String}

/-- Nothing is said under a key: it is missing, or `null` stands there. -/
def IsUnsaid (members : List (String × Json)) (key : String) : Prop :=
  Entries.get? key members = none ∨ Entries.get? key members = some .null

/-- What stands under a key, if anything does, is of a form. -/
def Permits (members : List (String × Json)) (key : String) (form : Json → Prop) : Prop :=
  IsUnsaid members key ∨ ∃ v, Entries.get? key members = some v ∧ form v

/-- What is said under a key: the items whose written form stands there, or none. -/
def Says {α : Type} (members : List (String × Json)) (key : String) (written : List α → Json)
    (items : List α) : Prop :=
  IsUnsaid members key ∧ items = [] ∨ Entries.get? key members = some (written items)

theorem exists_says_iff {α : Type} {written : List α → Json} {form : Json → Prop}
    (hform : ∀ v, (∃ items, v = written items) ↔ form v) :
    (∃ items, Says members key written items) ↔ Permits members key form := by
  constructor
  · rintro ⟨items, ⟨hunsaid, -⟩ | hget⟩
    · exact .inl hunsaid
    · exact .inr ⟨_, hget, (hform _).1 ⟨items, rfl⟩⟩
  · rintro (hunsaid | ⟨v, hget, hv⟩)
    · exact ⟨[], .inl ⟨hunsaid, rfl⟩⟩
    · obtain ⟨items, rfl⟩ := (hform v).2 hv
      exact ⟨items, .inr hget⟩

/-- An object says what its inputs are, and every value has the form of its key.  What may be the
name of a compiler is left open. -/
structure IsTypedObject (isName : Json → Prop) (members : List (String × Json)) : Prop where
  /-- The inputs are there, if only as `null`. -/
  inputs : "input" ∈ Entries.keys members
  /-- The compiler has a name, if it is there. -/
  compiler : Permits members "cmd" isName
  /-- Lists are lists of texts. -/
  texts : ∀ key ∈ ["include", "input", "flag", "zc"], Permits members key IsTexts
  /-- Mappings are objects of texts or nothing. -/
  settings : ∀ key ∈ ["define", "file", "warn"], Permits members key IsSettings

/-- An entry of a document is an object whose values have the forms of their keys. -/
def IsTyped (isName : Json → Prop) (entry : Json) : Prop :=
  ∃ members, entry = .object members ∧ IsTypedObject isName members

/-- What an object says is what an invocation holds, in the same order. -/
structure Records (members : List (String × Json)) (inv : Invocation) : Prop where
  /-- The inputs are there, if only as `null`. -/
  present : "input" ∈ Entries.keys members
  /-- The compiler is the text that stands there; otherwise nothing that counts does. -/
  compiler : Entries.get? "cmd" members = some (.string inv.compiler) ∨
    inv.compiler = "" ∧ ∀ v, Entries.get? "cmd" members = some v → v.isFalsy
  /-- The include directories. -/
  includes : Says members "include" textsToJson inv.includes
  /-- The inputs. -/
  inputs : Says members "input" textsToJson inv.inputs
  /-- The flags. -/
  flags : Says members "flag" textsToJson inv.flags
  /-- The conformance flags. -/
  conformance : Says members "zc" textsToJson inv.conformance
  /-- The defined names. -/
  defines : Says members "define" settingsToJson inv.defines
  /-- The output categories. -/
  files : Says members "file" settingsToJson inv.files
  /-- The warning codes. -/
  warnings : Says members "warn" settingsToJson inv.warnings

/-- The objects that some invocation records are the well typed ones. -/
theorem exists_records_iff : (∃ inv, Records members inv) ↔ IsTypedObject IsName members := by
  have htexts (key : String) :
      (∃ texts, Says members key textsToJson texts) ↔ Permits members key IsTexts :=
    exists_says_iff fun _ => exists_textsToJson_iff
  have hsettings (key : String) :
      (∃ settings, Says members key settingsToJson settings) ↔ Permits members key IsSettings :=
    exists_says_iff fun _ => exists_settingsToJson_iff
  constructor
  · rintro ⟨inv, h⟩
    refine ⟨h.present, ?_, ?_, ?_⟩
    · -- a compiler is a text, or anything that counts as false and stands for none
      cases hget : Entries.get? "cmd" members with
      | none => exact .inl (.inl hget)
      | some v =>
        refine .inr ⟨v, hget, ?_⟩
        rcases h.compiler with hname | ⟨-, hfalsy⟩
        · exact .inr ⟨_, Option.some.inj (hget.symm.trans hname)⟩
        · exact .inl (hfalsy v hget)
    · simp only [List.forall_mem_cons, ← htexts]
      exact ⟨⟨_, h.includes⟩, ⟨_, h.inputs⟩, ⟨_, h.flags⟩, ⟨_, h.conformance⟩,
        List.forall_mem_nil _⟩
    · simp only [List.forall_mem_cons, ← hsettings]
      exact ⟨⟨_, h.defines⟩, ⟨_, h.files⟩, ⟨_, h.warnings⟩, List.forall_mem_nil _⟩
  · intro h
    have hlists := h.texts
    have hmappings := h.settings
    simp only [List.forall_mem_cons, ← htexts] at hlists
    simp only [List.forall_mem_cons, ← hsettings] at hmappings
    obtain ⟨⟨includes, hincludes⟩, ⟨inputs, hinputs⟩, ⟨flags, hflags⟩,
      ⟨conformance, hconformance⟩, -⟩ := hlists
    obtain ⟨⟨defines, hdefines⟩, ⟨files, hfiles⟩, ⟨warnings, hwarnings⟩, -⟩ := hmappings
    -- in the other direction the name is read off, and is empty where there is none
    obtain ⟨compiler, hcompiler⟩ : ∃ compiler,
        Entries.get? "cmd" members = some (.string compiler) ∨
          compiler = "" ∧ ∀ v, Entries.get? "cmd" members = some v → v.isFalsy := by
      rcases h.compiler with (hnone | hnull) | ⟨v, hget, hfalsy | ⟨s, rfl⟩⟩
      · exact ⟨"", .inr ⟨rfl, fun v hv => absurd (hnone.symm.trans hv) (by simp)⟩⟩
      · refine ⟨"", .inr ⟨rfl, fun v hv => ?_⟩⟩
        rw [← Option.some.inj (hnull.symm.trans hv)]
        rfl
      · refine ⟨"", .inr ⟨rfl, fun w hw => ?_⟩⟩
        rwa [← Option.some.inj (hget.symm.trans hw)]
      · exact ⟨s, .inl hget⟩
    exact ⟨⟨compiler, includes, inputs, flags, conformance, defines, files, warnings⟩,
      h.inputs, hcompiler, hincludes, hinputs, hflags, hconformance, hdefines, hfiles, hwarnings⟩

/-! ### What the readers accept -/

theorem readCompiler_eq_ok_iff {compiler : String} :
    readCompiler index (.object members) = .ok compiler ↔
      Entries.get? "cmd" members = some (.string compiler) ∨
        compiler = "" ∧ ∀ v, Entries.get? "cmd" members = some v → v.isFalsy := by
  unfold readCompiler
  simp only [Json.get?]
  split
  · next hnone =>
    simp only [hnone, Except.ok.injEq, reduceCtorEq, false_or, false_imp_iff, implies_true,
      and_true]
    exact eq_comm
  · next s hsome =>
    simp only [hsome, Except.ok.injEq, Option.some.injEq, Json.string.injEq, forall_eq']
    constructor
    · exact .inl
    · rintro (h | ⟨rfl, hfalsy⟩)
      · exact h
      · exact String.isEmpty_iff.1 hfalsy
  · next v hstring hsome =>
    have hne : v ≠ .string compiler := hstring compiler
    simp only [hsome, Option.some.injEq, hne, false_or, forall_eq']
    split_ifs with hfalsy
    · simp [hfalsy, eq_comm]
    · simp [hfalsy]

theorem readTexts_eq_ok_iff {texts : List String} :
    readTexts index (.object members) key = .ok texts ↔ Says members key textsToJson texts := by
  unfold readTexts Says IsUnsaid
  simp only [Json.get?]
  split
  · next hnone => simp [hnone, eq_comm]
  · next hnull => simp [hnull, eq_comm, textsToJson]
  · next v hnull hsome =>
    simp only [hsome, reduceCtorEq, Option.some.injEq, false_or, ← Json.strings?_eq_some_iff]
    have hne : v ≠ .null := hnull
    cases v.strings? <;> simp [hne]

theorem readSetting_eq_ok_iff {name : String} {v : Json} {value : Option String} :
    readSetting index key name v = .ok value ↔ v = settingToJson value := by
  cases v <;> cases value <;> simp [readSetting, settingToJson, eq_comm]

/-- Only nulls and texts are read as settings, each under its name. -/
theorem mapM_readSetting_eq_ok_iff {settings : NamedSettings} :
    members.mapM (fun e => (readSetting index key e.1 e.2).map (e.1, ·)) = .ok settings ↔
      members = settings.map fun e => (e.1, settingToJson e.2) := by
  induction members generalizing settings with
  | nil => cases settings <;> simp [pure, Except.pure]
  | cons member rest ih =>
    obtain ⟨name, v⟩ := member
    rw [List.mapM_cons]
    constructor
    · intro h
      obtain ⟨setting, hsetting, h⟩ := exists_of_bind_eq_ok h
      obtain ⟨others, hothers, h⟩ := exists_of_bind_eq_ok h
      obtain rfl := Except.ok.inj h
      obtain ⟨value, hvalue, rfl⟩ := exists_of_map_eq_ok hsetting
      obtain rfl : v = settingToJson value := readSetting_eq_ok_iff.1 hvalue
      rw [List.map_cons, ← ih.1 hothers]
    · intro h
      cases settings with
      | nil => exact absurd h (by simp)
      | cons setting others =>
        obtain ⟨hmember, hrest⟩ := List.cons.inj h
        obtain ⟨rfl, hvalue⟩ := Prod.mk.inj hmember
        rw [readSetting_eq_ok_iff.2 hvalue, ih.2 hrest]
        rfl

theorem readSettings_eq_ok_iff {settings : NamedSettings} :
    readSettings index (.object members) key = .ok settings ↔
      Says members key settingsToJson settings := by
  unfold readSettings Says IsUnsaid
  simp only [Json.get?]
  split
  · next hnone => simp [hnone, eq_comm]
  · next hnull => simp [hnull, eq_comm, settingsToJson]
  · next found hfound =>
    simp only [hfound, reduceCtorEq, Option.some.injEq, false_or, false_and, settingsToJson_eq,
      Json.object.injEq]
    exact mapM_readSetting_eq_ok_iff
  · next v hnull hobject hsome =>
    have hne : v ≠ .null := hnull
    have hform : v ≠ settingsToJson settings := fun heq =>
      hobject _ (heq.trans (settingsToJson_eq settings))
    simp [hsome, hne, hform]

/-- An entry is read as an invocation exactly if it is an object that records it. -/
theorem ofJson_eq_ok_iff :
    ofJson index entry = .ok inv ↔ ∃ members, entry = .object members ∧ Records members inv := by
  constructor
  · intro h
    unfold ofJson at h
    split at h
    · next members =>
      split_ifs at h with hmissing
      obtain ⟨compiler, hcompiler, h⟩ := exists_of_bind_eq_ok h
      obtain ⟨includes, hincludes, h⟩ := exists_of_bind_eq_ok h
      obtain ⟨inputs, hinputs, h⟩ := exists_of_bind_eq_ok h
      obtain ⟨flags, hflags, h⟩ := exists_of_bind_eq_ok h
      obtain ⟨conformance, hconformance, h⟩ := exists_of_bind_eq_ok h
      obtain ⟨defines, hdefines, h⟩ := exists_of_bind_eq_ok h
      obtain ⟨files, hfiles, h⟩ := exists_of_bind_eq_ok h
      obtain ⟨warnings, hwarnings, h⟩ := exists_of_bind_eq_ok h
      obtain rfl := Except.ok.inj h
      have hpresent : "input" ∈ Entries.keys members := by
        by_contra habsent
        exact hmissing (by rw [Entries.get?_eq_none_iff.2 habsent]; rfl)
      exact ⟨members, rfl, hpresent, readCompiler_eq_ok_iff.1 hcompiler,
        readTexts_eq_ok_iff.1 hincludes, readTexts_eq_ok_iff.1 hinputs,
        readTexts_eq_ok_iff.1 hflags, readTexts_eq_ok_iff.1 hconformance,
        readSettings_eq_ok_iff.1 hdefines, readSettings_eq_ok_iff.1 hfiles,
        readSettings_eq_ok_iff.1 hwarnings⟩
    · exact absurd h (by simp)
  · rintro ⟨members, rfl, h⟩
    obtain ⟨v, hinput⟩ := Entries.exists_of_mem_keys h.present
    have hpresent : ¬ (Entries.get? "input" members).isNone = true := by simp [hinput]
    rw [ofJson, if_neg hpresent, readCompiler_eq_ok_iff.2 h.compiler,
      readTexts_eq_ok_iff.2 h.includes, readTexts_eq_ok_iff.2 h.inputs,
      readTexts_eq_ok_iff.2 h.flags, readTexts_eq_ok_iff.2 h.conformance,
      readSettings_eq_ok_iff.2 h.defines, readSettings_eq_ok_iff.2 h.files,
      readSettings_eq_ok_iff.2 h.warnings]
    rfl

theorem exists_ofJson_iff (index : Nat) :
    (∃ inv, ofJson index entry = .ok inv) ↔ IsTyped IsName entry := by
  simp only [ofJson_eq_ok_iff, IsTyped, ← exists_records_iff]
  constructor
  · rintro ⟨inv, members, rfl, h⟩
    exact ⟨members, rfl, inv, h⟩
  · rintro ⟨members, rfl, inv, h⟩
    exact ⟨inv, members, rfl, h⟩

/-! ### What the readers refuse -/

/-- The place of the entry that an error is about. -/
def DocumentError.index? : DocumentError → Option Nat
  | .notJson _ | .notList => none
  | .notObject index | .noInputs index | .compilerNotText index | .notTexts index _
  | .notSettings index _ | .settingNotText index _ _ => some index

theorem failsIn_readCompiler (index : Nat) (entry : Json) :
    FailsIn (fun e => e.index? = some index) (readCompiler index entry) := by
  unfold readCompiler
  split
  · exact .ok _
  · exact .ok _
  · split
    · exact .ok _
    · exact .error rfl

theorem failsIn_readTexts (index : Nat) (entry : Json) (key : String) :
    FailsIn (fun e => e.index? = some index) (readTexts index entry key) := by
  unfold readTexts
  split
  · exact .ok _
  · exact .ok _
  · split
    · exact .ok _
    · exact .error rfl

theorem failsIn_readSettings (index : Nat) (entry : Json) (key : String) :
    FailsIn (fun e => e.index? = some index) (readSettings index entry key) := by
  have hsetting (name : String) (v : Json) :
      FailsIn (fun e => e.index? = some index) (readSetting index key name v) := by
    unfold readSetting
    split
    · exact .ok _
    · exact .ok _
    · exact .error rfl
  unfold readSettings
  split
  · exact .ok _
  · exact .ok _
  · exact .mapM (fun setting : String × Json => (hsetting setting.1 setting.2).map _) _
  · exact .error rfl

/-- Whatever is wrong with an entry, the error is about that entry. -/
theorem failsIn_ofJson (index : Nat) (entry : Json) :
    FailsIn (fun e => e.index? = some index) (ofJson index entry) := by
  unfold ofJson
  split
  · split
    · exact .error rfl
    · -- the fields one after another
      refine (failsIn_readCompiler ..).bind fun _ => ?_
      refine (failsIn_readTexts ..).bind fun _ => (failsIn_readTexts ..).bind fun _ => ?_
      refine (failsIn_readTexts ..).bind fun _ => (failsIn_readTexts ..).bind fun _ => ?_
      refine (failsIn_readSettings ..).bind fun _ => (failsIn_readSettings ..).bind fun _ => ?_
      exact (failsIn_readSettings ..).bind fun _ => .ok _
  · exact .error rfl

/-- A message that names the entry at a place: the number of the place stands in it, and no digit
follows. -/
def Names (message : String) (index : Nat) : Prop :=
  ∃ rest, message = "Invocation #" ++ toString index ++ rest ∧
    ∃ c, rest.toList.head? = some c ∧ ¬ c.isDigit

/-- More words leave a message about the entry that it names. -/
theorem Names.append {message : String} (h : Names message index) (words : String) :
    Names (message ++ words) index := by
  obtain ⟨rest, rfl, c, hc, hdigit⟩ := h
  refine ⟨rest ++ words, String.append_assoc, c, ?_, hdigit⟩
  rw [String.toList_append, List.head?_append, hc]
  rfl

/-- The message of an error about an entry names the entry. -/
theorem DocumentError.names_message {e : DocumentError} (h : e.index? = some index) :
    Names e.message index := by
  have hkey (key : String) : Names ("Invocation #" ++ toString index ++ ": '" ++ key) index :=
    Names.append ⟨_, rfl, ':', rfl, by decide⟩ key
  unfold message
  cases e with
  | notJson | notList => exact absurd h (by simp [index?])
  | notObject i | noInputs i =>
    obtain rfl := Option.some.inj h
    exact ⟨_, rfl, ' ', rfl, by decide⟩
  | compilerNotText i =>
    obtain rfl := Option.some.inj h
    exact ⟨_, rfl, ':', rfl, by decide⟩
  | notTexts i key | notSettings i key =>
    obtain rfl := Option.some.inj h
    exact (hkey key).append _
  | settingNotText i key name =>
    obtain rfl := Option.some.inj h
    exact (((hkey key).append ".").append name).append _

/-! ### Lists of entries -/

/-- The entries are read one after another. -/
theorem listFrom_eq_ok_iff :
    listFrom index entries = .ok invs ↔
      List.Forall₂ (fun entry inv => ∃ members, entry = .object members ∧ Records members inv)
        entries invs := by
  induction entries generalizing index invs with
  | nil => cases invs <;> simp [listFrom]
  | cons entry rest ih =>
    constructor
    · intro h
      obtain ⟨inv, hinv, h⟩ := exists_of_bind_eq_ok h
      obtain ⟨others, hothers, h⟩ := exists_of_bind_eq_ok h
      obtain rfl := Except.ok.inj h
      exact .cons (ofJson_eq_ok_iff.1 hinv) (ih.1 hothers)
    · rintro (_ | ⟨hinv, hothers⟩)
      rw [listFrom, ofJson_eq_ok_iff.2 hinv, ih.2 hothers]
      rfl

/-- Reading a list of entries stops at the first one that is not well typed. -/
theorem exists_of_listFrom_eq_error {e : DocumentError} (h : listFrom index entries = .error e) :
    ∃ i entry, entries[i]? = some entry ∧ ¬ IsTyped IsName entry ∧
      (∀ earlier ∈ entries.take i, IsTyped IsName earlier) ∧ e.index? = some (index + i) := by
  induction entries generalizing index with
  | nil => exact absurd h (by simp [listFrom])
  | cons entry rest ih =>
    cases hentry : ofJson index entry with
    | error e' =>
      rw [listFrom, hentry] at h
      obtain rfl : e' = e := Except.error.inj h
      refine ⟨0, entry, rfl, ?_, fun earlier hearlier => absurd hearlier (by simp), ?_⟩
      · rw [← exists_ofJson_iff index, hentry]
        simp
      · exact (failsIn_ofJson index entry).kind e' hentry
    -- the first entry is well typed, so the error comes from a later one, and its number goes up by
    -- one
    | ok inv =>
      cases hrest : listFrom (index + 1) rest with
      | ok others =>
        rw [listFrom, hentry, hrest] at h
        exact absurd h (by simp [bind, Except.bind, pure, Except.pure])
      | error e' =>
        rw [listFrom, hentry, hrest] at h
        obtain rfl : e' = e := Except.error.inj h
        obtain ⟨i, bad, hbad, hrefused, hearlier, hindex⟩ := ih hrest
        refine ⟨i + 1, bad, hbad, hrefused, ?_, by rw [hindex, Nat.add_right_comm]; rfl⟩
        rw [List.take_succ_cons, List.forall_mem_cons]
        exact ⟨(exists_ofJson_iff index).1 ⟨inv, hentry⟩, hearlier⟩

theorem exists_listFrom_iff :
    (∃ invs, listFrom index entries = .ok invs) ↔ ∀ entry ∈ entries, IsTyped IsName entry := by
  constructor
  · rintro ⟨invs, h⟩
    have htyped := (listFrom_eq_ok_iff.1 h).imp fun entry inv hentry =>
      And.intro ((exists_ofJson_iff index).1 ⟨inv, ofJson_eq_ok_iff.2 hentry⟩) hentry
    exact ((List.forall₂_and_left _ _).1 htyped).1
  · intro h
    cases hlist : listFrom index entries with
    | ok invs => exact ⟨invs, rfl⟩
    | error e =>
      obtain ⟨i, entry, hentry, hrefused, -⟩ := exists_of_listFrom_eq_error hlist
      exact absurd (h entry (List.mem_of_getElem? hentry)) hrefused

/-- What is wrong with a decoded document is no matter of JSON. -/
theorem ofDocument_of_listOfJson {v : Json} {e : DocumentError} (h : listOfJson v = .error e) :
    Failure.ofDocument e = .invocations e := by
  unfold listOfJson at h
  split at h
  · obtain ⟨i, entry, -, -, -, hindex⟩ := exists_of_listFrom_eq_error h
    cases e with
    | notJson | notList => exact absurd hindex (by simp [DocumentError.index?])
    | notObject | noInputs | compilerNotText | notTexts | notSettings | settingNotText => rfl
  · obtain rfl := Except.error.inj h
    rfl

/-! ### Documents -/

/-- **A document is accepted exactly if it is well typed**: a list of objects that say what their
inputs are, with a text or what counts as absent for the name of the compiler, and lists of texts
and objects of texts or nothing where these belong.  Each invocation then holds what its entry says,
in its order.  Any other document is refused with an error of the configuration; if it is a list,
the message names the first entry that is not well typed. -/
theorem listOfJson_typed (v : Json) :
    ((∃ invs, listOfJson v = .ok invs) ↔
        ∃ entries, v = .array entries ∧ ∀ entry ∈ entries, IsTyped IsName entry) ∧
      (∀ invs, listOfJson v = .ok invs → ∃ entries, v = .array entries ∧
        List.Forall₂ (fun entry inv => ∃ members, entry = .object members ∧ Records members inv)
          entries invs) ∧
      ∀ e, listOfJson v = .error e →
        (Failure.ofDocument e).label = "InvocationConfigError" ∧
          ∀ entries, v = .array entries → ∃ i entry, entries[i]? = some entry ∧
            ¬ IsTyped IsName entry ∧ (∀ earlier ∈ entries.take i, IsTyped IsName earlier) ∧
            Names (Failure.ofDocument e).message i := by
  have herror {e : DocumentError} (h : listOfJson v = .error e) :
      (Failure.ofDocument e).label = "InvocationConfigError" := by
    rw [ofDocument_of_listOfJson h]
    rfl
  cases v with
  | array entries =>
    refine ⟨?_, fun invs h => ⟨entries, rfl, listFrom_eq_ok_iff.1 h⟩, fun e h => ⟨herror h, ?_⟩⟩
    · simp only [Json.array.injEq, exists_eq_left']
      exact exists_listFrom_iff
    · rintro _ ⟨⟩
      obtain ⟨i, entry, hentry, hrefused, hearlier, hindex⟩ := exists_of_listFrom_eq_error h
      rw [Nat.zero_add] at hindex
      refine ⟨i, entry, hentry, hrefused, hearlier, ?_⟩
      rw [ofDocument_of_listOfJson h]
      exact DocumentError.names_message hindex
  | null | bool b | int n | float x | string s | object members =>
    -- the document is no list, so there is no entry that could be to blame
    exact ⟨by simp [listOfJson], fun invs h => absurd h (by simp [listOfJson]),
      fun e h => ⟨herror h, fun entries heq => absurd heq (by simp)⟩⟩

/-- A document whose second entry has a number for a setting; in the first one the name of the
compiler and the inputs are left open. -/
def halfTyped : Json :=
  .array [.object [("cmd", .bool false), ("input", .null), ("define", .object [("A", .null)])],
    .object [("input", .array []), ("warn", .object [("4996", .int 7)])]]

/-- The document is refused, and the message names the second entry. -/
theorem listOfJson_halfTyped :
    ∃ e, listOfJson halfTyped = .error e ∧ Names (Failure.ofDocument e).message 1 := by
  have hfirst : ∃ invs, listOfJson (.array [.object [("cmd", .bool false), ("input", .null),
      ("define", .object [("A", .null)])]]) = .ok invs := ⟨_, rfl⟩
  obtain ⟨_, ⟨⟩, htyped⟩ := (listOfJson_typed _).1.1 hfirst
  have hrefused : ∃ e, listOfJson halfTyped = .error e := ⟨_, rfl⟩
  obtain ⟨e, he⟩ := hrefused
  obtain ⟨-, hnamed⟩ := (listOfJson_typed halfTyped).2.2 e he
  obtain ⟨i, entry, hentry, hbad, -, hnames⟩ := hnamed _ rfl
  match i, hentry, hnames with
  | 0, hentry, _ =>
    obtain rfl := Option.some.inj hentry
    exact absurd (htyped _ List.mem_cons_self) hbad
  | 1, _, hnames => exact ⟨e, he, hnames⟩

/-- A document whose only entry has a number for the name of its compiler. -/
def numbered : Json := .array [.object [("cmd", .int 0), ("input", .array [])]]

/-- The document is accepted, although the name of the compiler is neither a text nor left open:
zero counts as absent. -/
theorem listOfJson_numbered :
    (∃ invs, listOfJson numbered = .ok invs) ∧
      ¬ ∃ entries, numbered = .array entries ∧ ∀ entry ∈ entries, IsTyped IsText entry := by
  refine ⟨⟨[empty], rfl⟩, ?_⟩
  rintro ⟨_, ⟨⟩, htyped⟩
  obtain ⟨_, ⟨⟩, hobject⟩ := htyped _ List.mem_cons_self
  rcases hobject.compiler with (hnone | hnull) | ⟨v, hget, s, rfl⟩
  · exact absurd hnone (by simp [Entries.get?])
  · exact absurd hnull (by simp [Entries.get?])
  · exact absurd hget (by simp [Entries.get?])

end Invocation

end DeclGraph
