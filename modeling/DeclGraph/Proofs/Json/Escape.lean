import DeclGraph.Json.Printer
import DeclGraph.Json.Reader
import Mathlib

/-!
# Strings of a document are read as they were meant

A text inside a string stands for a character if the reader goes through it and keeps the code
units of that character (`Reader.StandsFor`).  Both escapings of the writer are such texts
(`standsFor_escapeCharAscii`, `standsFor_escapeChar`): a character above `FFFF` in ASCII is two
escapes, which the reader joins.  A string spelled character by character is therefore read back
whole (`stringTail_flatMap`).
-/

namespace DeclGraph

namespace Json

/-! ### Escapes of code units -/

/-- A code unit is escaped with four hexadecimal digits. -/
theorem unitEscape_eq {n : Nat} (h : n < 0x10000) :
    unitEscape n = ['\\', 'u', Nat.digitChar (n / 0x1000), Nat.digitChar (n / 0x100 % 0x10),
      Nat.digitChar (n / 0x10 % 0x10), Nat.digitChar (n % 0x10)] := by
  have hlast {m : Nat} (hm : m < 16) : Nat.toDigits 16 m = [Nat.digitChar m] :=
    Nat.toDigits_of_lt_base hm
  have hmore {m : Nat} (hm : 16 ≤ m) :
      Nat.toDigits 16 m = Nat.toDigits 16 (m / 16) ++ [Nat.digitChar (m % 16)] :=
    Nat.toDigits_of_base_le (by omega) hm
  have hzero : Nat.digitChar 0 = '0' := rfl
  have h₂ : n / 16 / 16 = n / 256 := by omega
  have h₃ : n / 256 / 16 = n / 4096 := by omega
  -- the digits that are missing in front are zeros
  rcases Nat.lt_or_ge n 16 with h16 | h16
  · have hd : n / 4096 = 0 ∧ n / 256 % 16 = 0 ∧ n / 16 % 16 = 0 ∧ n % 16 = n := by omega
    simp [unitEscape, hlast h16, hd, hzero]
  rcases Nat.lt_or_ge n 256 with h256 | h256
  · have hd : n / 4096 = 0 ∧ n / 256 % 16 = 0 ∧ n / 16 % 16 = n / 16 := by omega
    simp [unitEscape, hmore h16, hlast (show n / 16 < 16 by omega), hd, hzero]
  rcases Nat.lt_or_ge n 4096 with h4096 | h4096
  · have hd : n / 4096 = 0 ∧ n / 256 % 16 = n / 256 := by omega
    simp [unitEscape, hmore h16, hmore (show 16 ≤ n / 16 by omega), h₂,
      hlast (show n / 256 < 16 by omega), hd, hzero]
  · simp [unitEscape, hmore h16, hmore (show 16 ≤ n / 16 by omega), h₂,
      hmore (show 16 ≤ n / 256 by omega), h₃, hlast (show n / 4096 < 16 by omega)]

namespace Reader

/-- A hexadecimal digit is read as its value. -/
theorem hexDigit?_digitChar {n : Nat} (h : n < 16) : hexDigit? (Nat.digitChar n) = some n := by
  have hall : ∀ m : Fin 16, hexDigit? (Nat.digitChar m) = some m.val := by decide
  exact hall ⟨n, h⟩

/-- The four digits of a code unit are read as that unit. -/
theorem hex4?_digits {n : Nat} (h : n < 0x10000) :
    hex4? (Nat.digitChar (n / 0x1000)) (Nat.digitChar (n / 0x100 % 0x10))
      (Nat.digitChar (n / 0x10 % 0x10)) (Nat.digitChar (n % 0x10)) = some n := by
  rw [hex4?, hexDigit?_digitChar (by omega), hexDigit?_digitChar (by omega),
    hexDigit?_digitChar (by omega), hexDigit?_digitChar (by omega)]
  exact congrArg some (by omega)

/-- The reader keeps the code unit of an escape, wherever something follows. -/
theorem stringTail_unitEscape {n : Nat} (h : n < 0x10000) (start : List Char) {rest : List Char}
    (hrest : rest ≠ []) (done : List Nat) :
    stringTail start (unitEscape n ++ rest) done = stringTail start rest (n :: done) := by
  have hne : rest.isEmpty = false := by simpa using hrest
  rw [unitEscape_eq h]
  simp only [List.cons_append, List.nil_append, stringTail, hex4?_digits h, hne,
    Bool.false_eq_true, if_false]

/-! ### Code units of characters -/

/-- A character that is no half is its own code unit. -/
theorem joinHalves_cons {n : Nat} (hhigh : isHighHalf n = false) (hlow : isLowHalf n = false)
    (units : List Nat) : joinHalves (n :: units) = Char.ofNat n :: joinHalves units := by
  cases units <;> simp [joinHalves, hhigh, hlow]

/-- No character is half a character. -/
theorem isHalf_toNat (c : Char) : isHighHalf c.toNat = false ∧ isLowHalf c.toNat = false := by
  have hvalid : c.toNat < 0xD800 ∨ 0xDFFF < c.toNat ∧ c.toNat < 0x110000 := c.valid
  simp only [isHighHalf, isLowHalf, Bool.and_eq_false_iff, decide_eq_false_iff_not]
  omega

/-- The two halves of a character are joined. -/
theorem joinHalves_pair {high low : Nat} {c : Char} (hhigh : isHighHalf high = true)
    (hlow : isLowHalf low = true)
    (hc : 0x10000 + (high - 0xD800) * 0x400 + (low - 0xDC00) = c.toNat) (units : List Nat) :
    joinHalves (high :: low :: units) = c :: joinHalves units := by
  rw [joinHalves, hhigh, hlow, Bool.and_self, if_pos rfl, hc, Char.ofNat_toNat]

/-! ### Texts that stand for characters -/

/-- Inside a string, `text` is read as the character `c`, whatever comes before and behind. -/
def StandsFor (text : List Char) (c : Char) : Prop :=
  ∃ units : List Nat, (∀ others, joinHalves (units ++ others) = c :: joinHalves others)
    ∧ ∀ start rest done, rest ≠ [] →
        stringTail start (text ++ rest) done = stringTail start rest (units.reverse ++ done)

/-- A text that is read as the code unit of a character stands for it. -/
theorem standsFor_of_unit {text : List Char} {c : Char}
    (h : ∀ start rest done, rest ≠ [] →
      stringTail start (text ++ rest) done = stringTail start rest (c.toNat :: done)) :
    StandsFor text c := by
  obtain ⟨hhigh, hlow⟩ := isHalf_toNat c
  refine ⟨[c.toNat], fun others => ?_, h⟩
  rw [List.singleton_append, joinHalves_cons hhigh hlow, Char.ofNat_toNat]

/-- A character that needs no escape stands for itself. -/
theorem standsFor_self {c : Char} (hquote : c ≠ '"') (hslash : c ≠ '\\') (hc : ¬ c.toNat < 0x20) :
    StandsFor [c] c := by
  refine standsFor_of_unit fun start rest done _ => ?_
  simp [stringTail, hslash, hc]

/-- A backslash and a letter stand for a character. -/
theorem standsFor_short {letter c : Char} (h : shortEscape? letter = some c) :
    StandsFor ['\\', letter] c := by
  have hu : letter ≠ 'u' := by rintro rfl; simp [shortEscape?] at h
  refine standsFor_of_unit fun start rest done _ => ?_
  simp [stringTail, hu, h]

/-- The escape of a code unit stands for its character. -/
theorem standsFor_unitEscape {c : Char} (h : c.toNat < 0x10000) :
    StandsFor (unitEscape c.toNat) c :=
  standsFor_of_unit fun start _ done hrest => stringTail_unitEscape h start hrest done

/-- The escapes of the two halves of a character stand for it. -/
theorem standsFor_pair {high low : Nat} {c : Char} (hhigh : isHighHalf high = true)
    (hlow : isLowHalf low = true)
    (hc : 0x10000 + (high - 0xD800) * 0x400 + (low - 0xDC00) = c.toNat) :
    StandsFor (unitEscape high ++ unitEscape low) c := by
  have hbounds : high < 0x10000 ∧ low < 0x10000 := by
    simp only [isHighHalf, isLowHalf, Bool.and_eq_true, decide_eq_true_eq] at hhigh hlow
    omega
  refine ⟨[high, low], fun others => joinHalves_pair hhigh hlow hc others,
    fun start rest done hrest => ?_⟩
  rw [List.append_assoc, stringTail_unitEscape hbounds.1 start (by simp [unitEscape]),
    stringTail_unitEscape hbounds.2 start hrest]
  rfl

/-- The escape that a character has in every document stands for it. -/
theorem standsFor_controlEscape {c : Char} {text : List Char} (h : controlEscape? c = some text) :
    StandsFor text c := by
  unfold controlEscape? at h
  split_ifs at h with h₁ h₂ h₃ h₄ h₅ h₆ h₇ h₈ <;> cases h
  · subst h₁; exact standsFor_short (by decide)
  · subst h₂; exact standsFor_short (by decide)
  · subst h₃; exact standsFor_short (by decide)
  · subst h₄; exact standsFor_short (by decide)
  · subst h₅; exact standsFor_short (by decide)
  · subst h₆; exact standsFor_short (by decide)
  · subst h₇; exact standsFor_short (by decide)
  · exact standsFor_unitEscape (by omega)

/-- A character that has no escape in every document may stand for itself. -/
theorem standsFor_self_of_controlEscape {c : Char} (h : controlEscape? c = none) :
    StandsFor [c] c := by
  unfold controlEscape? at h
  split_ifs at h with h₁ h₂ h₃ h₄ h₅ h₆ h₇ h₈
  exact standsFor_self h₁ h₂ h₈

/-- A character in an ASCII document stands for itself. -/
theorem standsFor_escapeCharAscii (c : Char) : StandsFor (escapeCharAscii c) c := by
  unfold escapeCharAscii
  split
  · next text htext => exact standsFor_controlEscape htext
  · next hnone =>
    simp only []
    split_ifs with h₁ h₂
    · exact standsFor_self_of_controlEscape hnone
    · exact standsFor_unitEscape h₂
    · have hvalid : c.toNat < 0xD800 ∨ 0xDFFF < c.toNat ∧ c.toNat < 0x110000 := c.valid
      refine standsFor_pair ?_ ?_ (by omega)
      · simp only [isHighHalf, Bool.and_eq_true, decide_eq_true_eq]; omega
      · simp only [isLowHalf, Bool.and_eq_true, decide_eq_true_eq]; omega

/-- A string whose characters are spelled by texts that stand for them is read whole. -/
theorem stringTail_flatMap {escape : Char → List Char} (hescape : ∀ c, StandsFor (escape c) c)
    (s : String) (start rest : List Char) :
    stringTail start (s.toList.flatMap escape ++ '"' :: rest) [] = .ok (s, rest) := by
  have hread : ∀ cs : List Char, ∃ units, joinHalves units = cs ∧ ∀ done,
      stringTail start (cs.flatMap escape ++ '"' :: rest) done
        = .ok (String.ofList (joinHalves (done.reverse ++ units)), rest) := by
    intro cs
    induction cs with
    | nil => exact ⟨[], rfl, fun done => by simp [stringTail]⟩
    | cons c cs ih =>
      obtain ⟨units, hunits, htail⟩ := ih
      obtain ⟨own, hown, hstep⟩ := hescape c
      refine ⟨own ++ units, by rw [hown, hunits], fun done => ?_⟩
      rw [List.flatMap_cons, List.append_assoc, hstep _ _ _ (by simp), htail,
        List.reverse_append, List.reverse_reverse, List.append_assoc]
  obtain ⟨units, hunits, htail⟩ := hread s.toList
  rw [htail, List.reverse_nil, List.nil_append, hunits, String.ofList_toList]

end Reader

end Json

end DeclGraph
