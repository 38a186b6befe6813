import DeclGraph.Text.Utf8
import Mathlib

/-!
# Octets that were written are read back

`Utf8.decode_encode` says that the octets of a text are read as that text.  The reader goes through
the octets of one character and stands behind it (`decodeFrom_encodeChar`); this holds for each of
the four lengths a character can have, and for the first octets that bound the second one more
tightly.  `universalNewlines_of_notMem` says that a text without carriage returns keeps its line
ends.
-/

namespace DeclGraph

namespace Utf8

/-- An octet is the number it was made from. -/
private theorem toNat_toUInt8 {n : Nat} (h : n < 0x100) : n.toUInt8.toNat = n := by
  rw [Nat.toUInt8, UInt8.toNat_ofNat']
  omega

/-- An octet below `80` is a character. -/
private theorem decodeFrom_single {n : Nat} (h : n < 0x80) (rest : List UInt8) (pos : Nat)
    (done : List Char) :
    decodeFrom (n.toUInt8 :: rest) pos none done
      = decodeFrom rest (pos + 1) none (Char.ofNat n :: done) := by
  rw [decodeFrom, toNat_toUInt8 (by omega), if_pos h]

/-- An octet that announces others is kept until they have come. -/
private theorem decodeFrom_announced {n owed low high bits : Nat} (hn : n < 0x100)
    (h : announced n = some (owed, low, high, bits)) (rest : List UInt8) (pos : Nat)
    (done : List Char) :
    decodeFrom (n.toUInt8 :: rest) pos none done
      = decodeFrom rest (pos + 1) (some ⟨n.toUInt8, pos, owed, low, high, bits⟩) done := by
  have hlarge : ¬ n < 0x80 := by
    intro hsmall
    unfold announced at h
    split_ifs at h <;> omega
  rw [decodeFrom, toNat_toUInt8 hn, if_neg hlarge, h]

/-- An octet within its bounds goes on with a character of which more is owed. -/
private theorem decodeFrom_more {n : Nat} {p : Pending} (hn : n < 0x100) (hlow : p.low ≤ n)
    (hhigh : n ≤ p.high) (howed : 1 < p.owed) (rest : List UInt8) (pos : Nat) (done : List Char) :
    decodeFrom (n.toUInt8 :: rest) pos (some p) done
      = decodeFrom rest (pos + 1)
          (some ⟨p.first, p.start, p.owed - 1, 0x80, 0xBF, p.bits * 0x40 + (n - 0x80)⟩) done := by
  rw [decodeFrom, toNat_toUInt8 hn, if_pos ⟨hlow, hhigh⟩]
  exact if_neg (by omega)

/-- An octet within its bounds ends a character of which one is owed. -/
private theorem decodeFrom_last {n : Nat} {p : Pending} (hn : n < 0x100) (hlow : p.low ≤ n)
    (hhigh : n ≤ p.high) (howed : p.owed = 1) (rest : List UInt8) (pos : Nat) (done : List Char) :
    decodeFrom (n.toUInt8 :: rest) pos (some p) done
      = decodeFrom rest (pos + 1) none (Char.ofNat (p.bits * 0x40 + (n - 0x80)) :: done) := by
  rw [decodeFrom, toNat_toUInt8 hn, if_pos ⟨hlow, hhigh⟩]
  exact if_pos (by omega)

/-- What the first of two octets announces. -/
private theorem announced_two {n : Nat} (hlow : 0x80 ≤ n) (hhigh : n < 0x800) :
    announced (0xC0 + n / 0x40) = some (1, 0x80, 0xBF, n / 0x40) := by
  rw [announced, if_pos (by omega), Nat.add_sub_cancel_left]

/-- What the first of three octets announces lets the second one in. -/
private theorem announced_three {n : Nat} (hvalid : n < 0xD800 ∨ 0xDFFF < n) (hlow : 0x800 ≤ n)
    (hhigh : n < 0x10000) :
    ∃ low high bits, announced (0xE0 + n / 0x1000) = some (2, low, high, bits)
      ∧ bits = n / 0x1000 ∧ low ≤ 0x80 + n / 0x40 % 0x40 ∧ 0x80 + n / 0x40 % 0x40 ≤ high := by
  unfold announced
  split_ifs with h₁ h₂ h₃ h₄
  · omega
  · exact ⟨_, _, _, rfl, by omega, by omega, by omega⟩
  · exact ⟨_, _, _, rfl, by omega, by omega, by omega⟩
  · exact ⟨_, _, _, rfl, by omega, by omega, by omega⟩
  all_goals omega

/-- What the first of four octets announces lets the second one in. -/
private theorem announced_four {n : Nat} (hlow : 0x10000 ≤ n) (hhigh : n < 0x110000) :
    ∃ low high bits, announced (0xF0 + n / 0x40000) = some (3, low, high, bits)
      ∧ bits = n / 0x40000 ∧ low ≤ 0x80 + n / 0x1000 % 0x40
      ∧ 0x80 + n / 0x1000 % 0x40 ≤ high := by
  unfold announced
  split_ifs with h₁ h₂ h₃ h₄ h₅ h₆ h₇
  iterate 4 omega
  · exact ⟨_, _, _, rfl, by omega, by omega, by omega⟩
  · exact ⟨_, _, _, rfl, by omega, by omega, by omega⟩
  · exact ⟨_, _, _, rfl, by omega, by omega, by omega⟩
  · omega

/-- The reader goes through the octets of a character and stands behind it. -/
theorem decodeFrom_encodeChar (c : Char) (rest : List UInt8) (pos : Nat) (done : List Char) :
    decodeFrom (encodeChar c ++ rest) pos none done
      = decodeFrom rest (pos + (encodeChar c).length) none (c :: done) := by
  have hvalid : c.toNat < 0xD800 ∨ 0xDFFF < c.toNat ∧ c.toNat < 0x110000 := c.valid
  have hread {n : Nat} (hn : n = c.toNat) : Char.ofNat n = c := by rw [hn, Char.ofNat_toNat]
  simp only [encodeChar]
  -- one case for each number of octets
  split_ifs with h₁ h₂ h₃
  · rw [List.singleton_append, decodeFrom_single h₁, hread rfl]; rfl
  · rw [List.cons_append, List.singleton_append,
      decodeFrom_announced (by omega) (announced_two (by omega) h₂),
      decodeFrom_last (by omega) (by simp) (by simp only []; omega) rfl,
      hread (by simp only []; omega)]
    rfl
  · obtain ⟨low, high, bits, hfirst, hbits, hlow, hhigh⟩ :=
      announced_three (by omega) (by omega) h₃
    rw [List.cons_append, List.cons_append, List.singleton_append,
      decodeFrom_announced (by omega) hfirst,
      decodeFrom_more (by omega) hlow hhigh (by simp),
      decodeFrom_last (by omega) (by simp) (by simp only []; omega) rfl,
      hread (by simp only []; omega)]
    rfl
  · obtain ⟨low, high, bits, hfirst, hbits, hlow, hhigh⟩ :=
      announced_four (n := c.toNat) (by omega) (by omega)
    rw [List.cons_append, List.cons_append, List.cons_append, List.singleton_append,
      decodeFrom_announced (by omega) hfirst,
      decodeFrom_more (by omega) hlow hhigh (by simp),
      decodeFrom_more (by omega) (by simp) (by simp only []; omega) (by simp),
      decodeFrom_last (by omega) (by simp) (by simp only []; omega) rfl,
      hread (by simp only []; omega)]
    rfl

/-- The reader goes through the octets of a row of characters. -/
theorem decodeFrom_flatMap (cs : List Char) (pos : Nat) (done : List Char) :
    decodeFrom (cs.flatMap encodeChar) pos none done = .ok (done.reverse ++ cs) := by
  induction cs generalizing pos done with
  | nil => simp [decodeFrom]
  | cons c cs ih =>
    rw [List.flatMap_cons, decodeFrom_encodeChar, ih, List.reverse_cons, List.append_assoc,
      List.singleton_append]

/-- The octets of a text are read as that text. -/
theorem decode_encode (s : String) : decode (encode s) = .ok s := by
  rw [decode, encode, decodeFrom_flatMap]
  simp [Except.map]

end Utf8

/-- A text without carriage returns keeps its line ends. -/
theorem universalNewlines_of_notMem {cs : List Char} (h : '\r' ∉ cs) :
    universalNewlines cs = cs := by
  induction cs with
  | nil => rfl
  | cons c cs ih =>
    have hc : c ≠ '\r' := fun heq => h (heq ▸ List.mem_cons_self)
    have hcs : '\r' ∉ cs := fun hmem => h (List.mem_cons_of_mem _ hmem)
    rw [universalNewlines.eq_3 _ _ (fun _ hr _ => hc hr), if_neg hc, ih hcs]

end DeclGraph
