import DeclGraph.Proofs.CommandLine.Preparation
import DeclGraph.Proofs.FileSystem.Form

/-!
# Documents that cannot be read

What is wrong with a document is announced as a failure of the configuration, with three exceptions
(`FileSystem.Escapes`): its path is none, its octets are no text, or a number in it is too long.
There are no others, for invocations (`FileSystem.escapes_of_invocations`) and for rules
(`FileSystem.escapes_of_rules`).

The number is one of the text: what is wrong with a decoded document is never a matter of JSON.
-/

namespace DeclGraph

/-! ### Decoded documents -/

/-- The error is not one of JSON. -/
def RulesError.IsDecoded : RulesError → Prop
  | .notJson _ => False
  | _ => True

theorem Rules.failsIn_make? (blacklist : List String) (whitelists : Whitelists)
    (known : Entries String Schema) :
    FailsIn RulesError.IsDecoded (make? blacklist whitelists known) := by
  have hfields (rules : Rules) (schema : Schema) :
      FailsIn RulesError.IsDecoded (rules.fieldsFor schema) := by
    unfold fieldsFor
    split
    · exact .error trivial
    · split
      · exact .ok _
      · split
        · exact .error trivial
        · exact .ok _
  have hcheck (rules : Rules) (lists : Whitelists) :
      FailsIn RulesError.IsDecoded (rules.check known lists) := by
    induction lists with
    | nil => exact .ok _
    | cons list rest ih =>
      unfold check
      split
      · exact .error trivial
      · exact (hfields _ _).bind fun _ => ih
  exact (hcheck _ _).bind fun _ => .ok _

namespace RulesDocument

theorem failsIn_readWhitelists (entries : List (String × Json)) :
    FailsIn RulesError.IsDecoded (readWhitelists entries) := by
  induction entries with
  | nil => exact .ok _
  | cons entry rest ih =>
    unfold readWhitelists
    split
    · exact .error trivial
    · exact ih.bind fun _ => .ok _

/-- What is read behind the blacklist: the whitelists. -/
def readBehind (entries : List (String × Json)) (blacklist : List String) :
    Except RulesError RulesDocument :=
  match Entries.get? "whitelists" entries with
  | none => .ok ⟨blacklist, Rules.standardWhitelists⟩
  | some (.object lists) => readWhitelists lists >>= fun whitelists => .ok ⟨blacklist, whitelists⟩
  | some _ => .error .malformedWhitelists

theorem failsIn_readBehind (entries : List (String × Json)) (blacklist : List String) :
    FailsIn RulesError.IsDecoded (readBehind entries blacklist) := by
  unfold readBehind
  split
  · exact .ok _
  · exact (failsIn_readWhitelists _).bind fun whitelists => .ok _
  · exact .error trivial

/-- What is wrong with a decoded document is no matter of JSON. -/
theorem failsIn_ofJson (v : Json) : FailsIn RulesError.IsDecoded (ofJson v) := by
  unfold ofJson
  split
  · next entries =>
    cases Entries.get? "blacklist" entries with
    | none => exact failsIn_readBehind entries _
    | some v =>
      dsimp only
      cases v.strings? with
      | none => exact .error trivial
      | some names => exact failsIn_readBehind entries names
  · exact .error trivial

end RulesDocument

/-! ### Files -/

namespace FileSystem

variable {fs : FileSystem} {path : Path} {e : Failure}

/-- What reading a document fails with when nobody announces it. -/
inductive Escapes (fs : FileSystem) (path : Path) : Failure → Prop
  /-- The path is none. -/
  | embeddedNull (null : path.HoldsNull) : Escapes fs path (.file .embeddedNull)
  /-- The octets are no text. -/
  | notText {octets : List UInt8} {fault : Utf8.Fault} (read : fs.read path = .ok octets)
    (undecodable : Utf8.decode octets = .error fault) : Escapes fs path (.notText fault)
  /-- A number is too long. -/
  | longNumber {text : String} {digits position line column : Nat} (found : fs.text path = .ok text)
    (long : Json.parse text = .error ⟨.tooManyDigits digits, position, line, column⟩) :
    Escapes fs path (.longNumber digits)

theorem escapes_of_text (h : fs.text path = .error e) :
    e.isAnnounced = true ∨ fs.Escapes path e := by
  unfold text at h
  split at h
  · next octets hread =>
    unfold TextFile.ofOctets at h
    split at h
    · exact absurd h (by simp)
    · next fault hfault =>
      obtain rfl := Except.error.inj h
      exact .inr (.notText hread hfault)
  · next e' hread =>
    obtain rfl := Except.error.inj h
    cases hsystem : e'.isFromSystem with
    | true => exact .inl hsystem
    | false =>
      obtain rfl := FileError.eq_embeddedNull hsystem
      exact .inr (.embeddedNull (holdsNull_of_read hread))

theorem escapes_of_invocations (h : fs.invocations path = .error e) :
    e.isAnnounced = true ∨ fs.Escapes path e := by
  unfold invocations at h
  split at h
  · next htext => exact escapes_of_text (Except.error.inj h ▸ htext)
  · next text htext =>
    unfold Invocation.listOfText at h
    -- only a number that is too long makes a text unreadable without a word
    cases hparse : Json.parse text with
    | ok v =>
      rw [hparse] at h
      dsimp only at h
      cases hlist : Invocation.listOfJson v with
      | ok invs =>
        rw [hlist] at h
        exact absurd h (by simp [Except.mapError])
      | error fault =>
        rw [hlist] at h
        obtain rfl := Except.error.inj h
        rw [Invocation.ofDocument_of_listOfJson hlist]
        exact .inl rfl
    | error fault =>
      rw [hparse] at h
      obtain rfl := Except.error.inj h
      unfold Failure.ofDocument
      split
      · next heq =>
        obtain rfl := Invocation.DocumentError.notJson.inj heq
        exact .inr (.longNumber htext hparse)
      · exact .inl rfl

/-- Where the text of a file gives no rules something is wrong with the document; that is a matter of
JSON only if the text is no JSON. -/
theorem exists_fault_of_rules {text : String} (htext : fs.text path = .ok text)
    (h : fs.rules path = .error e) :
    ∃ fault, e = .ofRules fault ∧ ∀ f, fault = .notJson f → Json.parse text = .error f := by
  -- what is wrong with a decoded document is no matter of JSON
  have hdecoded {fault : RulesError} (hfault : fault.IsDecoded) (f : Json.Fault)
      (heq : fault = .notJson f) : Json.parse text = .error f := by
    rw [heq] at hfault
    exact absurd hfault id
  rw [rules, htext] at h
  dsimp only at h
  unfold RulesDocument.ofText at h
  cases hparse : Json.parse text with
  | error f =>
    rw [hparse] at h
    refine ⟨.notJson f, (Except.error.inj h).symm, fun f' heq => ?_⟩
    rw [RulesError.notJson.inj heq]
  | ok v =>
    rw [hparse] at h
    dsimp only at h
    rw [hparse] at hdecoded
    cases hdocument : RulesDocument.ofJson v with
    | error fault =>
      rw [hdocument] at h
      exact ⟨fault, (Except.error.inj h).symm,
        hdecoded ((RulesDocument.failsIn_ofJson v).kind fault hdocument)⟩
    | ok document =>
      rw [hdocument] at h
      dsimp only at h
      cases hrules : document.rules with
      | error fault =>
        rw [hrules] at h
        exact ⟨fault, (Except.error.inj h).symm,
          hdecoded ((Rules.failsIn_make? _ _ _).kind fault hrules)⟩
      | ok rules =>
        rw [hrules] at h
        exact absurd h (by simp [Except.mapError])

theorem escapes_of_rules (h : fs.rules path = .error e) :
    e.isAnnounced = true ∨ fs.Escapes path e := by
  cases htext : fs.text path with
  | error e' =>
    rw [rules, htext] at h
    exact escapes_of_text (Except.error.inj h ▸ htext)
  | ok text =>
    obtain ⟨fault, rfl, hjson⟩ := exists_fault_of_rules htext h
    unfold Failure.ofRules
    split
    · exact .inr (.longNumber htext (hjson _ rfl))
    · exact .inl rfl

/-- What writing a text fails with when the file system is not to blame: the path is none. -/
theorem escapes_of_writeText {text : String} (h : (fs.writeText path text).2 = .error e) :
    e.isFromSystem = true ∨ e = .file .embeddedNull ∧ path.HoldsNull := by
  -- the file system has an answer to every path but those that hold a null
  have hcases {e' : FileError} (hnull : e' = .embeddedNull → path.HoldsNull) :
      (Failure.file e').isFromSystem = true ∨
        Failure.file e' = .file .embeddedNull ∧ path.HoldsNull := by
    cases hsystem : e'.isFromSystem with
    | true => exact .inl hsystem
    | false =>
      obtain rfl := FileError.eq_embeddedNull hsystem
      exact .inr ⟨rfl, hnull rfl⟩
  unfold writeText at h
  split at h
  · next e' hmake =>
    obtain rfl := Except.error.inj h
    refine hcases fun heq => ?_
    have hnull : (fs.makeDirectories path.parent true).2 = .error .embeddedNull := by
      rw [hmake, heq]
    exact (holdsNull_of_makeDirectories hnull).of_parent
  · next files hmake =>
    split at h
    · next e' hwrite =>
      obtain rfl := Except.error.inj h
      exact hcases fun heq => holdsNull_of_write (heq ▸ hwrite)
    · exact absurd h (by simp)

end FileSystem

end DeclGraph
