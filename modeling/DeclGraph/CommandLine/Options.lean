import DeclGraph.Number.Numeral

/-!
# Options

A command takes options, which have long names and may be shortened as long as no other option is
meant.  `Options.read` gives the values of every option that stands in a list of arguments, and
refuses a list that holds anything else: an argument that belongs to no option, an option that
nobody knows, a missing value, a value for an option that takes none.
-/

namespace DeclGraph

/-- An option of a command. -/
structure CommandOption where
  /-- Its name, with the dashes. -/
  name : String
  /-- Whether it takes a value. -/
  takesValue : Bool
deriving DecidableEq, Repr

/-- The values given for options, in the order of the arguments; an option without a value counts
as given an empty one. -/
abbrev GivenOptions := List (String × String)

/-- What an argument is. -/
inductive Argument
  /-- A value. -/
  | value (text : String)
  /-- An option, and the value behind its equals sign if there is one. -/
  | option (o : CommandOption) (value? : Option String)
  /-- Something that no command takes. -/
  | refused
deriving DecidableEq, Repr

namespace Options

/-- Whether a text is a dash and a number, which is a value and no option. -/
def isNegativeNumber (cs : List Char) : Bool :=
  let isDigit (c : Char) : Bool := (Numeral.digit? c).isSome
  let allDigits (cs : List Char) : Bool := !cs.isEmpty && cs.all isDigit
  match (if cs.getLast? = some '\n' then cs.dropLast else cs) with
  | '-' :: rest =>
    allDigits rest || (match rest.dropWhile isDigit with
      | '.' :: fraction => allDigits fraction
      | _ => false)
  | _ => false

/-- The text in front of the first equals sign, and the text behind it if there is one. -/
def atEquals (arg : String) : String × Option String :=
  let cs := arg.toList
  let name := String.ofList (cs.takeWhile (· ≠ '='))
  match cs.dropWhile (· ≠ '=') with
  | _ :: value => (name, some (String.ofList value))
  | [] => (name, none)

/-- The options that a name means: the one of this name, or those it is short for. -/
def candidates (options : List CommandOption) (name : String) : List CommandOption :=
  match options.find? fun o => o.name = name with
  | some o => [o]
  | none => options.filter fun o => name.toList.isPrefixOf o.name.toList

/-- What a long option means. -/
def longOption (options : List CommandOption) (arg : String) : Argument :=
  let (name, value?) := atEquals arg
  match options.find? fun o => o.name = arg with
  | some o => .option o none
  | none =>
    match candidates options name with
    | [o] => .option o value?
    | [] => if arg.toList.contains ' ' then .value arg else .refused
    | _ => .refused

/-- What an argument means. -/
def argumentOf (options : List CommandOption) (arg : String) : Argument :=
  match arg.toList with
  | '-' :: '-' :: _ => longOption options arg
  | ['-'] => .value arg
  | '-' :: 'h' :: _ => .refused
  | '-' :: _ =>
    if isNegativeNumber arg.toList || arg.toList.contains ' ' then .value arg else .refused
  | _ => .value arg

/-- Reads the arguments of a command. -/
def read (options : List CommandOption) : List String → Option GivenOptions
  | [] => some []
  | arg :: rest =>
    match argumentOf options arg with
    | .value _ => none
    | .refused => none
    | .option o (some value) =>
      if o.takesValue then (read options rest).map ((o.name, value) :: ·) else none
    | .option o none =>
      if o.takesValue then
        match rest with
        | [] => none
        | next :: rest =>
          match argumentOf options next with
          | .value value => (read options rest).map ((o.name, value) :: ·)
          | _ => none
      else (read options rest).map ((o.name, "") :: ·)

end Options

namespace GivenOptions

/-- The values of an option, in order. -/
def all (given : GivenOptions) (name : String) : List String :=
  (given.filter fun e => e.1 = name).map Prod.snd

/-- The last value of an option. -/
def last? (given : GivenOptions) (name : String) : Option String := (given.all name).getLast?

/-- Whether an option is given. -/
def has (given : GivenOptions) (name : String) : Bool := !(given.all name).isEmpty

/-- The last value of an option that has a form of its own.  Every value must have the form; no
value at all is `usual`. -/
def read? {α : Type} (given : GivenOptions) (name : String) (reader : String → Option α)
    (usual : α) : Option α :=
  ((given.all name).mapM reader).map fun values => values.getLastD usual

end GivenOptions

end DeclGraph
