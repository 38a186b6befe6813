import DeclGraph.Json.Basic
import DeclGraph.Number.Numeral

/-!
# Reading JSON

`Json.parse` reads one JSON value that fills its text, blanks around it apart.  Besides the values
of the standard it takes the words `NaN`, `Infinity` and `-Infinity`.  Of a repeated key the last
value stays, at the place of the first.  A refusal names its cause and the place of the fault,
counted in characters; `Json.Fault.message` words it.

The reader works on the characters that are left, so a fault is the text from its place on.
Recursion is bounded by a number of steps computed from the length of the text: every step but the
last takes a character off.
-/

namespace DeclGraph

namespace Json

/-- Why a text is no JSON document. -/
inductive Cause
  /-- Something else stands, or nothing, where a value should. -/
  | expectingValue
  /-- Something else stands where the name of an entry should. -/
  | expectingName
  /-- No colon behind a name. -/
  | expectingColon
  /-- Neither a comma nor the closing bracket behind a value. -/
  | expectingComma
  /-- Something stands behind the document. -/
  | extraData
  /-- A string is not closed. -/
  | unterminatedString
  /-- A control character inside a string. -/
  | invalidControl
  /-- A backslash in front of a character that cannot be escaped. -/
  | invalidEscape
  /-- `\u` without four hexadecimal digits. -/
  | invalidUnicodeEscape
  /-- The text begins with a byte order mark. -/
  | byteOrderMark
  /-- A whole number has more digits than may be read. -/
  | tooManyDigits (count : Nat)
deriving DecidableEq, Repr

/-- The most digits a whole number may have. -/
def digitLimit : Nat := 4300

/-- The words for a cause. -/
def Cause.message : Cause → String
  | .expectingValue => "Expecting value"
  | .expectingName => "Expecting property name enclosed in double quotes"
  | .expectingColon => "Expecting ':' delimiter"
  | .expectingComma => "Expecting ',' delimiter"
  | .extraData => "Extra data"
  | .unterminatedString => "Unterminated string starting at"
  | .invalidControl => "Invalid control character at"
  | .invalidEscape => "Invalid \\escape"
  | .invalidUnicodeEscape => "Invalid \\uXXXX escape"
  | .byteOrderMark => "Unexpected UTF-8 BOM (decode using utf-8-sig)"
  | .tooManyDigits count =>
    "Exceeds the limit (" ++ toString digitLimit ++ " digits) for integer string conversion: value has "
      ++ toString count ++ " digits; use sys.set_int_max_str_digits() to increase the limit"

/-- A refusal: its cause and the text from the fault on. -/
structure Refusal where
  /-- What is wrong. -/
  cause : Cause
  /-- The text from the place of the fault on. -/
  rest : List Char

/-- A refusal with its place. -/
structure Fault where
  /-- What is wrong. -/
  cause : Cause
  /-- Characters in front of the fault. -/
  position : Nat
  /-- Line of the fault, from one. -/
  line : Nat
  /-- Column of the fault, from one. -/
  column : Nat
deriving DecidableEq, Repr

/-- The text of a fault: its cause and its place.  A number that is too long is told without a
place. -/
def Fault.message (f : Fault) : String :=
  match f.cause with
  | .tooManyDigits _ => f.cause.message
  | _ => f.cause.message ++ ": line " ++ toString f.line ++ " column " ++ toString f.column
      ++ " (char " ++ toString f.position ++ ")"

/-- The place of a refusal in its text. -/
def Refusal.locate (text : List Char) (r : Refusal) : Fault :=
  let position := text.length - r.rest.length
  let before := text.take position
  ⟨r.cause, position, before.count '\n' + 1, (before.reverse.takeWhile (· ≠ '\n')).length + 1⟩

namespace Reader

/-- What a step of the reader answers: a value and the text behind it, or a refusal. -/
abbrev Step (α : Type) := Except Refusal (α × List Char)

/-- The blanks between the parts of a document. -/
def isSpace (c : Char) : Bool := c == ' ' || c == '\t' || c == '\n' || c == '\r'

/-- The text behind the blanks at its start. -/
def skip (s : List Char) : List Char := s.dropWhile isSpace

/-- The text behind a word at its start. -/
def behind? : List Char → List Char → Option (List Char)
  | [], s => some s
  | _ :: _, [] => none
  | w :: word, c :: s => if w = c then behind? word s else none

/-- The value of a hexadecimal digit. -/
def hexDigit? (c : Char) : Option Nat :=
  if '0' ≤ c ∧ c ≤ '9' then some (c.toNat - '0'.toNat)
  else if 'a' ≤ c ∧ c ≤ 'f' then some (c.toNat - 'a'.toNat + 10)
  else if 'A' ≤ c ∧ c ≤ 'F' then some (c.toNat - 'A'.toNat + 10)
  else none

/-- The value of four hexadecimal digits. -/
def hex4? (a b c d : Char) : Option Nat := do
  let a ← hexDigit? a
  let b ← hexDigit? b
  let c ← hexDigit? c
  let d ← hexDigit? d
  return ((a * 16 + b) * 16 + c) * 16 + d

/-- Whether a code unit is the first half of a pair. -/
def isHighHalf (n : Nat) : Bool := 0xD800 ≤ n && n ≤ 0xDBFF

/-- Whether a code unit is the second half of a pair. -/
def isLowHalf (n : Nat) : Bool := 0xDC00 ≤ n && n ≤ 0xDFFF

/-- The characters of code units: a first half and the second half right behind it are one
character, and a half that stands alone gives the replacement character. -/
def joinHalves : List Nat → List Char
  | [] => []
  | [n] => [if isHighHalf n || isLowHalf n then '\uFFFD' else Char.ofNat n]
  | m :: n :: rest =>
    if isHighHalf m && isLowHalf n then
      Char.ofNat (0x10000 + (m - 0xD800) * 0x400 + (n - 0xDC00)) :: joinHalves rest
    else (if isHighHalf m || isLowHalf m then '\uFFFD' else Char.ofNat m) :: joinHalves (n :: rest)

/-- The character that a backslash and a letter stand for. -/
def shortEscape? : Char → Option Char
  | '"' => some '"'
  | '\\' => some '\\'
  | '/' => some '/'
  | 'b' => some '\x08'
  | 'f' => some '\x0c'
  | 'n' => some '\n'
  | 'r' => some '\r'
  | 't' => some '\t'
  | _ => none

/-- Reads the rest of a string that begins at `start`, behind the code units in `done` (last one
first).  A unit may be half a character. -/
def stringTail (start : List Char) : List Char → List Nat → Step String
  | [], _ => .error ⟨.unterminatedString, start⟩
  | '"' :: rest, done => .ok (String.ofList (joinHalves done.reverse), rest)
  | ['\\'], _ => .error ⟨.unterminatedString, start⟩
  | '\\' :: 'u' :: a :: b :: c :: d :: rest, done =>
    match hex4? a b c d with
    | some unit =>
      if rest.isEmpty then .error ⟨.invalidUnicodeEscape, 'u' :: a :: b :: c :: d :: rest⟩
      else stringTail start rest (unit :: done)
    | none => .error ⟨.invalidUnicodeEscape, 'u' :: a :: b :: c :: d :: rest⟩
  | '\\' :: 'u' :: rest, _ => .error ⟨.invalidUnicodeEscape, 'u' :: rest⟩
  | '\\' :: c :: rest, done =>
    match shortEscape? c with
    | some x => stringTail start rest (x.toNat :: done)
    | none => .error ⟨.invalidEscape, '\\' :: c :: rest⟩
  | c :: rest, done =>
    if c.toNat < 0x20 then .error ⟨.invalidControl, c :: rest⟩
    else stringTail start rest (c.toNat :: done)

/-- Whether a character is a digit of a number. -/
def isDigit (c : Char) : Bool := '0' ≤ c && c ≤ '9'

/-- The values of the digits at the start of a text, and the text behind them. -/
def digits (s : List Char) : List Nat × List Char :=
  ((s.takeWhile isDigit).map fun c => c.toNat - '0'.toNat, s.dropWhile isDigit)

/-- Reads a point and the digits behind it, where both are there. -/
def fraction? (s : List Char) : Option (List Nat × List Char) :=
  match s with
  | '.' :: rest =>
    match digits rest with
    | ([], _) => none
    | found => some found
  | _ => none

/-- Reads an exponent, where one is there. -/
def exponent? (s : List Char) : Option (Int × List Char) :=
  match s with
  | c :: rest =>
    if c = 'e' ∨ c = 'E' then
      let (negative, rest) := Numeral.sign rest
      match digits rest with
      | ([], _) => none
      | (ds, rest) =>
        let n : Int := (Numeral.value 0 ds : Nat)
        some (if negative then -n else n, rest)
    else none
  | [] => none

/-- Reads what follows the digits `whole` of a number that begins at `start`. -/
def numberTail (start : List Char) (negative : Bool) (whole : List Nat) (s : List Char) :
    Step Json :=
  let point := fraction? s
  let s := (point.map Prod.snd).getD s
  let power := exponent? s
  let s := (power.map Prod.snd).getD s
  if point.isNone && power.isNone then
    if digitLimit < whole.length then .error ⟨.tooManyDigits whole.length, start⟩
    else
      let n := Numeral.value 0 whole
      .ok (.int (if negative then -(n : Int) else n), s)
  else
    let fraction := (point.map Prod.fst).getD []
    let scale := (power.map Prod.fst).getD 0
    .ok (.float (Numeral.ofParts negative whole fraction scale), s)

/-- Reads a number.  Nothing may follow a zero at its start but a point or an exponent. -/
def number (start : List Char) : Step Json :=
  let (negative, s) := match start with
    | '-' :: rest => (true, rest)
    | s => (false, s)
  match s with
  | '0' :: rest => numberTail start negative [0] rest
  | c :: _ =>
    if isDigit c then
      let (whole, rest) := digits s
      numberTail start negative whole rest
    else .error ⟨.expectingValue, start⟩
  | [] => .error ⟨.expectingValue, start⟩

/-- The words of a document and their values. -/
def words : List (List Char × Json) :=
  [("null".toList, .null), ("true".toList, .bool true), ("false".toList, .bool false),
    ("NaN".toList, .float .nan), ("Infinity".toList, .float (.infinity false)),
    ("-Infinity".toList, .float (.infinity true))]

/-- Reads a word or a number. -/
def atom (s : List Char) : Step Json :=
  match words.findSome? fun (word, v) => (behind? word s).map fun rest => (v, rest) with
  | some found => .ok found
  | none => number s

mutual

/-- Reads a value. -/
def value : Nat → List Char → Step Json
  | 0, s => .error ⟨.expectingValue, s⟩
  | fuel + 1, s =>
    match s with
    | '"' :: rest =>
      match stringTail s rest [] with
      | .ok (text, rest) => .ok (.string text, rest)
      | .error r => .error r
    | '[' :: rest =>
      match skip rest with
      | ']' :: rest => .ok (.array [], rest)
      | rest => items fuel rest []
    | '{' :: rest =>
      match skip rest with
      | '}' :: rest => .ok (.object [], rest)
      | rest => members fuel rest []
    | s => atom s

/-- Reads the items of an array, behind those in `done` (last one first). -/
def items : Nat → List Char → List Json → Step Json
  | 0, s, _ => .error ⟨.expectingValue, s⟩
  | fuel + 1, s, done =>
    match value fuel s with
    | .error r => .error r
    | .ok (v, rest) =>
      match skip rest with
      | ']' :: rest => .ok (.array (v :: done).reverse, rest)
      | ',' :: rest => items fuel (skip rest) (v :: done)
      | rest => .error ⟨.expectingComma, rest⟩

/-- Reads the entries of an object, behind those in `done`. -/
def members : Nat → List Char → Entries String Json → Step Json
  | 0, s, _ => .error ⟨.expectingName, s⟩
  | fuel + 1, s, done =>
    match s with
    | '"' :: rest =>
      match stringTail s rest [] with
      | .error r => .error r
      | .ok (name, rest) =>
        match skip rest with
        | ':' :: rest =>
          match value fuel (skip rest) with
          | .error r => .error r
          | .ok (v, rest) =>
            match skip rest with
            | '}' :: rest => .ok (.object (Entries.put name v done), rest)
            | ',' :: rest => members fuel (skip rest) (Entries.put name v done)
            | rest => .error ⟨.expectingComma, rest⟩
        | rest => .error ⟨.expectingColon, rest⟩
    | s => .error ⟨.expectingName, s⟩

end

/-- Reads a document. -/
def document (text : List Char) : Except Refusal Json :=
  match text with
  | '\uFEFF' :: _ => .error ⟨.byteOrderMark, text⟩
  | text =>
    match value (2 * text.length + 2) (skip text) with
    | .error r => .error r
    | .ok (v, rest) =>
      match skip rest with
      | [] => .ok v
      | rest => .error ⟨.extraData, rest⟩

end Reader

/-- Reads a JSON document. -/
def parse (text : String) : Except Fault Json :=
  (Reader.document text.toList).mapError (Refusal.locate text.toList)

end Json

end DeclGraph
