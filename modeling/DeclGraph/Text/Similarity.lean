/-!
# Similar names

The similarity of two texts is twice the length of their longest common subsequence over the sum
of their lengths; two empty texts are alike.  `suggestion?` names the candidate most like a given
name, if it is like enough.  Similarities are compared as exact fractions.
-/

namespace DeclGraph

/-- The next row of the table of longest common subsequences: entry `j` is the length for the
texts up to here and the first `j` characters of `b`. -/
def commonRow (a : Char) : List Char → List Nat → Nat → List Nat
  | b :: bs, diagonal :: above :: row, left =>
    let here := if a = b then diagonal + 1 else max above left
    here :: commonRow a bs (above :: row) here
  | _, _, _ => []

/-- The length of the longest common subsequence. -/
def commonLength (a b : List Char) : Nat :=
  (a.foldl (fun row c => 0 :: commonRow c b row 0) (List.replicate (b.length + 1) 0)).getLastD 0

/-- A similarity as a fraction with its numerator and its denominator. -/
abbrev Similarity := Nat × Nat

/-- The similarity of two texts. -/
def similarity (a b : String) : Similarity :=
  let total := a.length + b.length
  if total = 0 then (1, 1) else (2 * commonLength a.toList b.toList, total)

/-- Whether the first similarity is below the second. -/
def Similarity.below (x y : Similarity) : Bool := x.1 * y.2 < y.1 * x.2

/-- The first of the candidates most like `name`. -/
def mostSimilar? (name : String) : List String → Option String
  | [] => none
  | c :: cs => some <| cs.foldl
      (fun best c => if (similarity name best).below (similarity name c) then c else best) c

/-- Names less alike than this are not suggested. -/
def suggestionThreshold : Similarity := (3, 5)

/-- The first of the candidates most like `name`, if it is like enough. -/
def suggestion? (name : String) (candidates : List String) : Option String :=
  (mostSimilar? name candidates).filter
    fun best => !(similarity name best).below suggestionThreshold

/-- The words that offer a suggestion, if there is one. -/
def suggestionText (name : String) (candidates : List String) : String :=
  match suggestion? name candidates with
  | some best => " (did you mean '" ++ best ++ "'?)"
  | none => ""

end DeclGraph
