/-!
# Globs

A glob matches one name of a path.  `Glob.ofText?` reads one: `*` stands for any characters, `?` for
one, brackets for one of a class, and a backslash takes the next character as it is.  A glob that
opens a bracket and does not close it, and one that ends in a backslash, are told apart, since the
first matches nothing and the second is a mistake.
-/

namespace DeclGraph

/-- A class of characters between brackets. -/
structure CharClass where
  /-- Whether the class holds the characters that are not listed. -/
  negated : Bool
  /-- The ranges listed. -/
  ranges : List (Char × Char)
deriving DecidableEq, Repr

namespace CharClass

/-- The ranges that the text between brackets lists. -/
def rangesOf : List Char → List (Char × Char)
  | [] => []
  | lo :: '-' :: hi :: rest => (lo, hi) :: rangesOf rest
  | c :: rest => (c, c) :: rangesOf rest

/-- Whether a character is in the class. -/
def holds (k : CharClass) (c : Char) : Bool :=
  (k.ranges.any fun (lo, hi) => lo ≤ c && c ≤ hi) != k.negated

end CharClass

/-- A part of a glob. -/
inductive GlobPart
  /-- The character itself. -/
  | char (c : Char)
  /-- One character other than a slash. -/
  | one
  /-- Any characters other than slashes. -/
  | many
  /-- One character of a class. -/
  | oneOf (k : CharClass)
deriving DecidableEq, Repr

/-- Why a glob cannot be read. -/
inductive GlobError
  /-- A bracket is not closed. -/
  | unclosed
  /-- Nothing follows a backslash. -/
  | trailingBackslash
deriving DecidableEq, Repr

namespace Glob

/-- The text up to the next closing bracket, and the text behind it. -/
def upToBracket : List Char → Option (List Char × List Char)
  | [] => none
  | ']' :: rest => some ([], rest)
  | c :: rest => (upToBracket rest).map fun (inside, rest) => (c :: inside, rest)

/-- Reads a class behind its opening bracket.  A closing bracket at its start is one of its
characters. -/
def charClass? (cs : List Char) : Option (CharClass × List Char) :=
  let (negated, cs) := match cs with
    | '!' :: rest => (true, rest)
    | '^' :: rest => (true, rest)
    | cs => (false, cs)
  let found : Option (List Char × List Char) := match cs with
    | ']' :: rest => (upToBracket rest).map fun (inside, rest) => (']' :: inside, rest)
    | cs => upToBracket cs
  found.map fun (inside, rest) => (⟨negated, CharClass.rangesOf inside⟩, rest)

/-- Reads a glob; `fuel` bounds the number of its parts. -/
def partsWithin : Nat → List Char → Except GlobError (List GlobPart)
  | 0, _ => .ok []
  | _ + 1, [] => .ok []
  | _ + 1, ['\\'] => .error .trailingBackslash
  | fuel + 1, '\\' :: c :: rest => (partsWithin fuel rest).map (.char c :: ·)
  | fuel + 1, '*' :: rest => (partsWithin fuel rest).map (.many :: ·)
  | fuel + 1, '?' :: rest => (partsWithin fuel rest).map (.one :: ·)
  | fuel + 1, '[' :: rest =>
    match charClass? rest with
    | none => .error .unclosed
    | some (k, rest) => (partsWithin fuel rest).map (.oneOf k :: ·)
  | fuel + 1, c :: rest => (partsWithin fuel rest).map (.char c :: ·)

/-- Reads a glob.  Every part takes a character at least. -/
def ofText? (cs : List Char) : Except GlobError (List GlobPart) := partsWithin (cs.length + 1) cs

end Glob

end DeclGraph
