import DeclGraph.TranslationUnit.Basic

/-!
# What tokens say

Macros, attributes, initial values and some markers of functions are read off their tokens:
`MacroText.ofTokens` tells the parameters of a macro from its body, `attributeArguments?` finds what
stands between the outer parentheses of an attribute, `initializer?` joins the tokens of the last
expression, and `functionMarkers` are the markers of a function in alphabetical order.
-/

namespace DeclGraph

/-- Tokens as a text, with blanks between them. -/
def spaced (tokens : List Token) : String := " ".intercalate (tokens.map Token.spelling)

/-! ### Macros -/

/-- What the tokens of a macro say. -/
structure MacroText where
  /-- The parameters, if the macro takes any or none. -/
  parameters? : Option (List String)
  /-- What the macro stands for. -/
  value : String
deriving DecidableEq, Repr

namespace MacroText

/-- Whether a token follows another one without a blank. -/
def isAdjacent (name next : Token) : Bool :=
  next.line == name.line && next.column == name.column + (name.spelling.length : Int)

/-- The parameters up to a closing parenthesis, and the tokens behind it, if there is one. -/
def parametersOf : List Token → List String × Option (List Token)
  | [] => ([], none)
  | t :: rest =>
    if t.spelling = ")" then ([], some rest)
    else
      let (parameters, behind?) := parametersOf rest
      (if t.spelling = "," then parameters else t.spelling :: parameters, behind?)

/-- Reads the tokens of a macro.  A parenthesis right behind the name opens parameters. -/
def ofTokens : List Token → MacroText
  | [] => ⟨none, ""⟩
  | name :: body =>
    match body with
    | [] => ⟨none, ""⟩
    | t :: rest =>
      if t.spelling = "(" ∧ isAdjacent name t then
        let (parameters, behind?) := parametersOf rest
        ⟨some parameters, spaced (behind?.getD body)⟩
      else ⟨none, spaced body⟩

end MacroText

/-! ### Attributes -/

/-- What stands between the outer parentheses of the tokens of an attribute, if anything does. -/
def attributeArguments? (tokens : List Token) : Option String :=
  let words := tokens.map Token.spelling
  match words.dropWhile (· ≠ "(") with
  | [] => none
  | _ :: inside =>
    if words.getLast? = some ")" then
      let text := " ".intercalate inside.dropLast
      if text.isEmpty then none else some text
    else none

/-- The name of an attribute that has no name of its own: that of its kind, without the ending. -/
def attributeName (kind : CursorKind) : String :=
  let cs := kind.lowerName.toList
  let ending := "_attr".toList
  if ending.reverse.isPrefixOf cs.reverse then String.ofList (cs.take (cs.length - ending.length))
  else kind.lowerName

/-! ### Functions and variables -/

/-- The words that ask for a function to be put in where it is called. -/
def inlineWords : List String := ["inline", "__inline", "__inline__", "__forceinline"]

/-- Whether the tokens in front of the name of a function ask for it to be put in where it is
called. -/
def isInline (name : String) (tokens : List Token) : Bool :=
  (tokens.takeWhile fun t => t.spelling ≠ name).any fun t => inlineWords.contains t.spelling

/-- The markers of a function in alphabetical order. -/
def functionMarkers (definition inline variadic : Bool) : List String :=
  (if definition then ["definition"] else []) ++ (if inline then ["inline"] else [])
    ++ (if variadic then ["variadic"] else [])

/-- A storage class as it is written; an invalid one is none. -/
def storageName (storage : String) : String :=
  let name := storage.toLower
  if name = "invalid" then "none" else name

end DeclGraph
