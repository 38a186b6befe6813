/-!
# UTF-8

`Utf8.encode` writes characters as octets and `Utf8.decode` reads octets strictly: overlong forms,
surrogates and values above `10FFFF` are refused at the first octet that rules them out, and the
refusal says which octets are at fault.  `universalNewlines` turns each of the three line ends
into a line feed.
-/

namespace DeclGraph

namespace Utf8

/-- The octets of one character. -/
def encodeChar (c : Char) : List UInt8 :=
  let n := c.toNat
  if n < 0x80 then [n.toUInt8]
  else if n < 0x800 then [(0xC0 + n / 0x40).toUInt8, (0x80 + n % 0x40).toUInt8]
  else if n < 0x10000 then
    [(0xE0 + n / 0x1000).toUInt8, (0x80 + n / 0x40 % 0x40).toUInt8, (0x80 + n % 0x40).toUInt8]
  else
    [(0xF0 + n / 0x40000).toUInt8, (0x80 + n / 0x1000 % 0x40).toUInt8,
      (0x80 + n / 0x40 % 0x40).toUInt8, (0x80 + n % 0x40).toUInt8]

/-- The octets of a text. -/
def encode (s : String) : List UInt8 := s.toList.flatMap encodeChar

/-- What is wrong with the octets that are refused. -/
inductive Reason
  /-- The first of them starts no character. -/
  | invalidStart
  /-- The octet after them does not continue their character. -/
  | invalidContinuation
  /-- The text ends inside their character. -/
  | unexpectedEnd
deriving DecidableEq, Repr

/-- A refusal: the octets from `start` up to `stop` are no character. -/
structure Fault where
  /-- The octet at `start`. -/
  first : UInt8
  /-- Position of the first octet at fault. -/
  start : Nat
  /-- Position behind the last octet at fault. -/
  stop : Nat
  /-- What is wrong with them. -/
  reason : Reason
deriving DecidableEq, Repr

/-- The words for a reason. -/
def Reason.message : Reason → String
  | .invalidStart => "invalid start byte"
  | .invalidContinuation => "invalid continuation byte"
  | .unexpectedEnd => "unexpected end of data"

/-- The text of a refusal. -/
def Fault.message (f : Fault) : String :=
  let hex (n : Nat) := String.ofList [Nat.digitChar (n / 16), Nat.digitChar (n % 16)]
  let place :=
    if f.stop ≤ f.start + 1 then
      "byte 0x" ++ hex f.first.toNat ++ " in position " ++ toString f.start
    else "bytes in position " ++ toString f.start ++ "-" ++ toString (f.stop - 1)
  "'utf-8' codec can't decode " ++ place ++ ": " ++ f.reason.message

/-- A character of which some octets have been read. -/
structure Pending where
  /-- Its first octet. -/
  first : UInt8
  /-- Position of its first octet. -/
  start : Nat
  /-- Octets still to come. -/
  owed : Nat
  /-- Least value of the next octet. -/
  low : Nat
  /-- Greatest value of the next octet. -/
  high : Nat
  /-- The bits read so far. -/
  bits : Nat
deriving DecidableEq, Repr

/-- What the first octet of a longer character announces: how many octets follow it, the bounds
of the next one and the bits it carries. -/
def announced (b : Nat) : Option (Nat × Nat × Nat × Nat) :=
  if 0xC2 ≤ b ∧ b ≤ 0xDF then some (1, 0x80, 0xBF, b - 0xC0)
  else if b = 0xE0 then some (2, 0xA0, 0xBF, 0)
  else if b = 0xED then some (2, 0x80, 0x9F, 0xD)
  else if 0xE1 ≤ b ∧ b ≤ 0xEF then some (2, 0x80, 0xBF, b - 0xE0)
  else if b = 0xF0 then some (3, 0x90, 0xBF, 0)
  else if 0xF1 ≤ b ∧ b ≤ 0xF3 then some (3, 0x80, 0xBF, b - 0xF0)
  else if b = 0xF4 then some (3, 0x80, 0x8F, 4)
  else none

/-- Reads the octets from position `pos` on, behind the characters in `done` (last one first). -/
def decodeFrom : List UInt8 → Nat → Option Pending → List Char → Except Fault (List Char)
  | [], _, none, done => .ok done.reverse
  | [], pos, some p, _ => .error ⟨p.first, p.start, pos, .unexpectedEnd⟩
  | b :: rest, pos, none, done =>
    if b.toNat < 0x80 then decodeFrom rest (pos + 1) none (Char.ofNat b.toNat :: done)
    else match announced b.toNat with
      | some (owed, low, high, bits) =>
        decodeFrom rest (pos + 1) (some ⟨b, pos, owed, low, high, bits⟩) done
      | none => .error ⟨b, pos, pos + 1, .invalidStart⟩
  | b :: rest, pos, some p, done =>
    if p.low ≤ b.toNat ∧ b.toNat ≤ p.high then
      let bits := p.bits * 0x40 + (b.toNat - 0x80)
      if p.owed ≤ 1 then decodeFrom rest (pos + 1) none (Char.ofNat bits :: done)
      else decodeFrom rest (pos + 1) (some ⟨p.first, p.start, p.owed - 1, 0x80, 0xBF, bits⟩) done
    else .error ⟨p.first, p.start, pos, .invalidContinuation⟩

/-- Reads octets as text. -/
def decode (octets : List UInt8) : Except Fault String :=
  (decodeFrom octets 0 none []).map String.ofList

end Utf8

/-- Turns every carriage return, with the line feed behind it if there is one, into one line
feed. -/
def universalNewlines : List Char → List Char
  | [] => []
  | '\r' :: '\n' :: rest => '\n' :: universalNewlines rest
  | c :: rest => (if c = '\r' then '\n' else c) :: universalNewlines rest

end DeclGraph
