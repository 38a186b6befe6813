import DeclGraph.Proofs.CommandLine.Documents
import DeclGraph.Proofs.Projection.Selection

/-!
# Which documents give rules

`Rules.IsDocumented` says what rules the entries of a document stand for: its blacklist is a list of
texts, its whitelists are an object of lists of texts, one for each kind, and what it does not have is
as usual; every whitelist is for a declaration and names fields of it.

Main statement: `Rules.load_documented`.  A file gives the rules that its document stands for, if
there are any, and otherwise it is refused with an error of the rules.  Each reader is turned around
first: whatever it reads is a value of one form only (`Json.strings?_eq_some_iff`,
`RulesDocument.readWhitelists_eq_ok_iff`, `RulesDocument.ofJson_eq_ok_iff`).
-/

namespace DeclGraph

open Invocation (textsToJson)

/-! ### Forms -/

namespace RulesDocument

variable {entries : List (String × Json)} {lists : Whitelists} {document : RulesDocument}

/-- Whitelists as an object. -/
def whitelistsToJson (lists : Whitelists) : Json :=
  .object (lists.map fun (kind, names) => (kind, textsToJson names))

/-- Only lists of texts are read as whitelists. -/
theorem readWhitelists_eq_ok_iff :
    readWhitelists entries = .ok lists ↔
      entries = lists.map fun (kind, names) => (kind, textsToJson names) := by
  induction entries generalizing lists with
  | nil => cases lists <;> simp [readWhitelists]
  | cons entry rest ih =>
    obtain ⟨kind, v⟩ := entry
    rw [readWhitelists]
    -- the document says just what was read, entry by entry
    constructor
    · intro h
      split at h
      · exact absurd h (by simp)
      · next names hnames =>
        obtain ⟨others, hothers, h⟩ := exists_of_bind_eq_ok h
        obtain rfl := Except.ok.inj h
        rw [List.map_cons, ← ih.1 hothers, Json.strings?_eq_some_iff.1 hnames]
    · intro h
      cases lists with
      | nil => exact absurd h (by simp)
      | cons list others =>
        obtain ⟨hentry, hrest⟩ := List.cons.inj h
        obtain ⟨rfl, rfl⟩ := Prod.mk.inj hentry
        rw [Json.strings?_eq_some_iff.2 rfl]
        simp [ih.2 hrest, bind, Except.bind, pure, Except.pure]

/-- What entries say under a key: the value of the form that stands there, or the usual one if the
key is missing. -/
def Says {α : Type} (entries : List (String × Json)) (key : String) (form : α → Json)
    (usual a : α) : Prop :=
  Entries.get? key entries = none ∧ a = usual ∨ Entries.get? key entries = some (form a)

theorem readBehind_eq_ok_iff {blacklist : List String} :
    readBehind entries blacklist = .ok document ↔ document.blacklist = blacklist ∧
      Says entries "whitelists" whitelistsToJson Rules.standardWhitelists document.whitelists := by
  obtain ⟨blacklist', whitelists⟩ := document
  unfold readBehind Says whitelistsToJson
  split
  · next hnone => simp [hnone, eq_comm]
  · next found hfound =>
    simp only [hfound, reduceCtorEq, false_and, false_or, Option.some.injEq, Json.object.injEq,
      ← readWhitelists_eq_ok_iff]
    cases readWhitelists found with
    | error e => simp [bind, Except.bind]
    | ok found => simp [bind, Except.bind, eq_comm]
  · next v hobject hfound => simpa [hfound] using fun _ heq => hobject _ heq

/-- Only objects that say what the blacklist and the whitelists are give a document. -/
theorem ofJson_eq_ok_iff {v : Json} :
    ofJson v = .ok document ↔ ∃ entries, v = .object entries ∧
      Says entries "blacklist" textsToJson Rules.standardBlacklist document.blacklist ∧
      Says entries "whitelists" whitelistsToJson Rules.standardWhitelists document.whitelists := by
  constructor
  · intro h
    unfold ofJson at h
    split at h
    · next entries =>
      refine ⟨entries, rfl, ?_⟩
      cases hblacklist : Entries.get? "blacklist" entries with
      | none =>
        rw [hblacklist] at h
        obtain ⟨heq, hwhitelists⟩ := readBehind_eq_ok_iff.1 h
        exact ⟨.inl ⟨hblacklist, heq⟩, hwhitelists⟩
      | some v =>
        rw [hblacklist] at h
        dsimp only at h
        cases hnames : v.strings? with
        | none => rw [hnames] at h; exact absurd h (by simp [bind, Except.bind])
        | some names =>
          rw [hnames] at h
          obtain ⟨heq, hwhitelists⟩ := readBehind_eq_ok_iff.1 h
          refine ⟨.inr ?_, hwhitelists⟩
          rw [hblacklist, heq, Json.strings?_eq_some_iff.1 hnames]
    · exact absurd h (by simp)
  · rintro ⟨entries, rfl, hblacklist, hwhitelists⟩
    unfold ofJson
    rcases hblacklist with ⟨hnone, heq⟩ | hsome
    · simp only [hnone]
      exact readBehind_eq_ok_iff.2 ⟨heq, hwhitelists⟩
    · simp only [hsome, Json.strings?_eq_some_iff.2 rfl]
      exact readBehind_eq_ok_iff.2 ⟨rfl, hwhitelists⟩

end RulesDocument

/-! ### Files -/

namespace Rules

variable {rules : Rules} {w : World} {path : Path} {text : String}

/-- The rules that the entries of a document stand for. -/
structure IsDocumented (entries : List (String × Json)) (rules : Rules) : Prop where
  /-- The blacklist is a list of texts. -/
  blacklist : RulesDocument.Says entries "blacklist" textsToJson standardBlacklist rules.blacklist
  /-- The whitelists are an object of lists of texts, in its order. -/
  whitelists : RulesDocument.Says entries "whitelists" RulesDocument.whitelistsToJson
    standardWhitelists rules.whitelists
  /-- Every whitelist is for a declaration and names fields of it. -/
  declared : ∀ name whitelist, Entries.get? name rules.whitelists = some whitelist →
    ∃ kind ∈ Kind.declarations, kind.name = name ∧ whitelist ⊆ kind.fieldNames

/-- A text gives the rules that its document stands for, and no others. -/
theorem rules_eq_ok_iff {fs : FileSystem} (htext : fs.text path = .ok text) :
    fs.rules path = .ok rules ↔
      ∃ entries, Json.parse text = .ok (.object entries) ∧ IsDocumented entries rules := by
  rw [FileSystem.rules, htext]
  dsimp only
  unfold RulesDocument.ofText
  cases hparse : Json.parse text with
  | error f => simp
  | ok v =>
    dsimp only
    constructor
    · intro h
      cases hdocument : RulesDocument.ofJson v with
      | error fault => rw [hdocument] at h; exact absurd h (by simp)
      | ok document =>
        rw [hdocument] at h
        dsimp only at h
        obtain ⟨entries, rfl, hblacklist, hwhitelists⟩ :=
          RulesDocument.ofJson_eq_ok_iff.1 hdocument
        cases hmake : document.rules with
        | error fault => rw [hmake] at h; exact absurd h (by simp [Except.mapError])
        | ok made =>
          rw [hmake] at h
          obtain rfl : made = rules := Except.ok.inj h
          obtain ⟨rfl, hdeclared⟩ := make?_standardKinds_eq_ok_iff.1 hmake
          exact ⟨entries, rfl, hblacklist, hwhitelists, hdeclared⟩
    · rintro ⟨entries, hv, h⟩
      obtain rfl := Except.ok.inj hv
      have hdocument : RulesDocument.ofJson (.object entries) =
          .ok ⟨rules.blacklist, rules.whitelists⟩ :=
        RulesDocument.ofJson_eq_ok_iff.2 ⟨entries, rfl, h.blacklist, h.whitelists⟩
      have hmake : RulesDocument.rules ⟨rules.blacklist, rules.whitelists⟩ = .ok rules :=
        make?_standardKinds_eq_ok_iff.2 ⟨rfl, h.declared⟩
      rw [hdocument]
      dsimp only
      rw [hmake]
      rfl

/-- **A file of rules is accepted exactly if it is as documented**, and it gives the rules that its
document stands for.  If the decoder takes every number, whatever else is in the file is refused
with an error of the rules. -/
theorem load_documented (frontEnd : FrontEnd) (htext : w.files.text path = .ok text) :
    (∀ rules, ((load path).runIn frontEnd w).1 = .ok rules ↔
        ∃ entries, Json.parse text = .ok (.object entries) ∧ IsDocumented entries rules) ∧
      ((∀ f, Json.parse text = .error f → ∀ digits, f.cause ≠ .tooManyDigits digits) →
        (¬ ∃ entries rules, Json.parse text = .ok (.object entries) ∧ IsDocumented entries rules) →
          ∃ e, ((load path).runIn frontEnd w).1 = .error (.rules e)) := by
  obtain ⟨log, hload⟩ := runIn_load frontEnd w path
  rw [hload]
  refine ⟨fun rules => rules_eq_ok_iff htext, fun hnumbers hnone => ?_⟩
  dsimp only
  cases hrules : w.files.rules path with
  | ok rules =>
    obtain ⟨entries, hparse, h⟩ := (rules_eq_ok_iff htext).1 hrules
    exact absurd ⟨entries, rules, hparse, h⟩ hnone
  | error e =>
    obtain ⟨fault, rfl, hjson⟩ := FileSystem.exists_fault_of_rules htext hrules
    refine ⟨fault, ?_⟩
    unfold Failure.ofRules
    -- only a number with too many digits is no fault of the rules
    split
    · next digits position line column =>
      exact absurd rfl (hnumbers _ (hjson _ rfl) digits)
    · rfl

/-- A document that says what the whitelists are twice. -/
def repeatedText : String :=
  "\x7b\"whitelists\": \x7b\"enum\": [null]\x7d, \"blacklist\": [\"x\", \"x\"], \"seen\": NaN, "
    ++ "\"whitelists\": \x7b\"location\": [], \"field\": [\"type\", \"name\"]\x7d\x7d"

/-- A document with a whitelist for a kind that is no declaration. -/
def undeclaredText : String :=
  "\x7b\"whitelists\": \x7b\"field\": [\"name\"], \"snapshot\": []\x7d\x7d"

/-- A directory with both documents. -/
def rulesWorld : World where
  files := ⟨[(["work"], .directory), (["work", "a.json"], .file (Utf8.encode repeatedText)),
    (["work", "b.json"], .file (Utf8.encode undeclaredText))], ["work"]⟩
  log := []
  calls := []

/-- The last whitelists of the first document count, in their order; the second document is
refused. -/
theorem load_documented_rulesWorld :
    rulesWorld.files.text ⟨.relative, ["a.json"]⟩ = .ok repeatedText ∧
      ((load ⟨.relative, ["a.json"]⟩).runIn (fun _ _ => default) rulesWorld).1
        = .ok ⟨["x", "x"], [("location", []), ("field", ["type", "name"])]⟩ ∧
      rulesWorld.files.text ⟨.relative, ["b.json"]⟩ = .ok undeclaredText ∧
      ∃ e, ((load ⟨.relative, ["b.json"]⟩).runIn (fun _ _ => default) rulesWorld).1
        = .error (.rules e) := by
  have hrepeated : rulesWorld.files.text ⟨.relative, ["a.json"]⟩ = .ok repeatedText := by
    decide +kernel
  have hparse : Json.parse repeatedText = .ok (.object [
      ("whitelists", .object [("location", .array []),
        ("field", .array [.string "type", .string "name"])]),
      ("blacklist", .array [.string "x", .string "x"]), ("seen", .float .nan)]) := by
    cbv
  have hmake : make? ["x", "x"] [("location", []), ("field", ["type", "name"])] standardKinds
      = .ok ⟨["x", "x"], [("location", []), ("field", ["type", "name"])]⟩ := rfl
  have hdeclared := (make?_standardKinds_eq_ok_iff.1 hmake).2
  have hundeclared : rulesWorld.files.text ⟨.relative, ["b.json"]⟩ = .ok undeclaredText := by
    decide +kernel
  refine ⟨hrepeated,
    ((load_documented _ hrepeated).1 _).2 ⟨_, hparse, .inr rfl, .inr rfl, hdeclared⟩,
    hundeclared, (load_documented _ hundeclared).2 (fun f hf => ?_) ?_⟩
  · have hdecodes : (Json.parse undeclaredText).isOk = true := by decide +kernel
    rw [hf] at hdecodes
    exact absurd hdecodes (by simp [Except.isOk, Except.toBool])
  · rintro ⟨entries, rules, h⟩
    have hrefused : (rulesWorld.files.rules ⟨.relative, ["b.json"]⟩).isOk = false := by
      decide +kernel
    rw [(rules_eq_ok_iff hundeclared).2 ⟨entries, h⟩] at hrefused
    exact absurd hrefused (by simp [Except.isOk, Except.toBool])

end Rules

end DeclGraph
