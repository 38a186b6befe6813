import DeclGraph.Proofs.TranslationUnit.Account

/-!
# Macros come apart at their parentheses

`MacroText.Form` says which of the tokens of a macro stand between its parentheses, if it has any,
and which are its body.  The body becomes the value as it stands, with all its parentheses and
commas, and none of it becomes a parameter.  Of what stands between the parentheses every token
but a comma becomes a parameter (`ofTokens_of_form`, `exists_addMacro`); so there is one parameter
between two commas as long as each is a single token, and two where a parameter with a name takes
all further arguments (`ofTokens_logging`).
-/

namespace DeclGraph

namespace MacroText

/-- What stands between commas; between parentheses that follow each other there is nothing. -/
def divided (inside : List Token) : List (List Token) :=
  if inside.isEmpty then [] else inside.splitOnP fun t => t.spelling = ","

/-- A parameter as it is written. -/
def written (parameter : List Token) : String := String.join (parameter.map Token.spelling)

/-- Whether a token opens parameters: a parenthesis right behind the name. -/
def Opens (name t : Token) : Prop := t.spelling = "(" ∧ isAdjacent name t

/-- The tokens of a macro: those between its parentheses, if parameters are opened, and its body. -/
inductive Form : List Token → Option (List Token) → List Token → Prop
  | plain {tokens : List Token} (h : ∀ name t rest, tokens = name :: t :: rest → ¬Opens name t) :
      Form tokens none tokens.tail
  | parameterized {name opening closing : Token} {inside body : List Token}
      (hopening : Opens name opening) (hinside : ∀ t ∈ inside, t.spelling ≠ ")")
      (hclosing : closing.spelling = ")") :
      Form (name :: opening :: (inside ++ closing :: body)) (some inside) body

/-! ### Between the parentheses -/

theorem flatten_splitOnP {α : Type} (p : α → Bool) (l : List α) :
    (l.splitOnP p).flatten = l.filter fun a => !p a := by
  induction l with
  | nil => rfl
  | cons a rest ih =>
    rw [List.splitOnP_cons_eq_if_modifyHead]
    split_ifs with hp
    · rw [List.flatten_cons, List.nil_append, ih, List.filter_cons_of_neg (by simp [hp])]
    · obtain ⟨first, others, heq⟩ := List.exists_cons_of_ne_nil (List.splitOnP_ne_nil p rest)
      rw [heq, List.flatten_cons] at ih
      rw [heq, List.modifyHead_cons, List.flatten_cons, List.cons_append, ih,
        List.filter_cons_of_pos (by simp [hp])]

theorem flatten_divided (inside : List Token) :
    (divided inside).flatten = inside.filter fun t => !decide (t.spelling = ",") := by
  rw [divided]
  split_ifs with hempty
  · rw [List.isEmpty_iff.1 hempty]
    rfl
  · exact flatten_splitOnP _ inside

/-- Single tokens side by side are as many parameters, each written as it is. -/
theorem map_written_of_single {parameters : List (List Token)}
    (h : ∀ p ∈ parameters, p.length = 1) :
    parameters.map written = parameters.flatten.map Token.spelling := by
  induction parameters with
  | nil => rfl
  | cons p rest ih =>
    obtain ⟨hp, hrest⟩ := List.forall_mem_cons.1 h
    obtain ⟨t, rfl⟩ := List.length_eq_one_iff.1 hp
    have ht : written [t] = t.spelling := String.empty_append
    rw [List.map_cons, ih hrest, ht, List.flatten_cons, List.map_append, List.map_singleton,
      List.singleton_append]

/-- Up to the first closing parenthesis every token but a comma is a parameter. -/
theorem parametersOf_append {inside body : List Token} {closing : Token}
    (hinside : ∀ t ∈ inside, t.spelling ≠ ")") (hclosing : closing.spelling = ")") :
    parametersOf (inside ++ closing :: body)
      = ((divided inside).flatten.map Token.spelling, some body) := by
  rw [flatten_divided]
  induction inside with
  | nil => simp [parametersOf, hclosing]
  | cons t rest ih =>
    obtain ⟨ht, hrest⟩ := List.forall_mem_cons.1 hinside
    rw [List.cons_append, parametersOf, if_neg ht, ih hrest]
    by_cases hcomma : t.spelling = ","
    · simp [hcomma]
    · simp [hcomma]

/-! ### Macros -/

/-- The value of a macro is its body, and its parameters are the tokens between the commas. -/
theorem ofTokens_of_form {tokens body : List Token} {inside? : Option (List Token)}
    (h : Form tokens inside? body) :
    ofTokens tokens =
      ⟨inside?.map fun inside => (divided inside).flatten.map Token.spelling, spaced body⟩ := by
  cases h with
  | plain hplain =>
    obtain _ | ⟨name, _ | ⟨t, rest⟩⟩ := tokens
    · rfl
    · rfl
    · have hnot : ¬(t.spelling = "(" ∧ isAdjacent name t = true) := hplain name t rest rfl
      rw [ofTokens, if_neg hnot]
      rfl
  | parameterized hopening hinside hclosing =>
    rw [ofTokens, if_pos (show _ ∧ _ from hopening), parametersOf_append hinside hclosing]
    rfl

end MacroText

/-! ### Nodes of macros -/

theorem Convert.look_of_readable {c : Cursor} {part : Part} (h : c.readable part = .ok ()) :
    look c part = pure () := by
  rw [look, h]
  rfl

/-- A macro that can be looked at becomes a node that shows what its tokens say. -/
theorem Convert.exists_run_addMacro {c : Cursor} (hname : c.readable .spelling = .ok ())
    (hextent : c.readable .extent = .ok ()) (parent : Value) (σ : Conversion) :
    ∃ id σ', (addMacro c parent).run σ = .ok (id, σ') ∧
      (σ'.graph.node id).get "value" = .text (MacroText.ofTokens c.tokens).value ∧
      (σ'.graph.node id).get "parameters" = match (MacroText.ofTokens c.tokens).parameters? with
        | some names => .list (names.map .text)
        | none => .null := by
  simp only [addMacro, nameOf, spanOf, look_of_readable hname, look_of_readable hextent, pure_bind]
  refine ⟨_, _, rfl, ?_, ?_⟩
  · rw [Graph.node_add_size]
    rfl
  · rw [Graph.node_add_size]
    rfl

open MacroText in
/-- The node of a macro tells its body and its parameters apart. -/
theorem Convert.exists_addMacro {c : Cursor} {inside? : Option (List Token)} {body : List Token}
    (hform : Form c.tokens inside? body) (hname : c.readable .spelling = .ok ())
    (hextent : c.readable .extent = .ok ()) (parent : Value) (σ : Conversion) :
    ∃ id σ', (addMacro c parent).run σ = .ok (id, σ') ∧
      (σ'.graph.node id).get "value" = .text (spaced body) ∧
      (inside? = none → (σ'.graph.node id).get "parameters" = .null) ∧
      ∀ inside ∈ inside?,
        (σ'.graph.node id).get "parameters"
          = .list ((divided inside).flatten.map fun t => .text t.spelling) ∧
        ((∀ p ∈ divided inside, p.length = 1) →
          (σ'.graph.node id).get "parameters"
            = .list ((divided inside).map fun p => .text (written p))) := by
  obtain ⟨id, σ', hrun, hvalue, hparameters⟩ := exists_run_addMacro hname hextent parent σ
  rw [ofTokens_of_form hform] at hvalue hparameters
  refine ⟨id, σ', hrun, hvalue, fun hnone => ?_, ?_⟩
  · rw [hparameters, hnone]
    rfl
  · rintro inside rfl
    have hall : (σ'.graph.node id).get "parameters"
        = .list ((divided inside).flatten.map fun t => .text t.spelling) :=
      hparameters.trans (congrArg Value.list List.map_map)
    refine ⟨hall, fun hsingle => ?_⟩
    have htexts := congrArg (List.map Value.text) (map_written_of_single hsingle)
    rw [List.map_map, List.map_map] at htexts
    exact hall.trans (congrArg Value.list htexts.symm)

/-! ### Macros with parameters -/

/-- Tokens on a line, each with the column where it starts. -/
def tokensAt (line : Int) (words : List (String × Int)) : List Token :=
  words.map fun (spelling, column) => ⟨spelling, line, column⟩

/-- What stands between the parentheses of `MAX(a, b)`. -/
def maximumInside : List Token := tokensAt 1 [("a", 13), (",", 14), ("b", 16)]

/-- The body of `MAX(a, b)`, which starts with a parenthesis and has a comma in it. -/
def maximumBody : List Token :=
  tokensAt 1 [("(", 19), ("max", 20), (")", 23), ("(", 24), ("a", 25), (",", 26), ("b", 28),
    (")", 29)]

/-- `#define MAX(a, b) (max)(a, b)` -/
def maximum : Cursor :=
  { Cursor.empty 0 with
    kind := .definedMacro, spelling := "MAX"
    tokens := ⟨"MAX", 1, 9⟩ :: ⟨"(", 1, 12⟩ :: (maximumInside ++ ⟨")", 1, 17⟩ :: maximumBody) }

theorem exists_addMacro_maximum :
    MacroText.Form maximum.tokens (some maximumInside) maximumBody ∧
      ∃ id σ', (Convert.addMacro maximum .null).run .start = .ok (id, σ') ∧
        (σ'.graph.node id).get "value" = .text "( max ) ( a , b )" ∧
        (σ'.graph.node id).get "parameters" = .list [.text "a", .text "b"] := by
  have hform : MacroText.Form maximum.tokens (some maximumInside) maximumBody :=
    .parameterized ⟨rfl, by decide⟩ (by decide) rfl
  obtain ⟨id, σ', hrun, hvalue, _, hparameters⟩ :=
    Convert.exists_addMacro hform rfl rfl .null .start
  refine ⟨hform, id, σ', hrun, hvalue.trans ?_, ((hparameters _ rfl).2 (by decide)).trans ?_⟩
  · exact congrArg Value.text (by decide +kernel)
  · have hwritten : (MacroText.divided maximumInside).map MacroText.written = ["a", "b"] := by
      decide +kernel
    have htexts := congrArg (List.map Value.text) hwritten
    rw [List.map_map] at htexts
    exact congrArg Value.list htexts

/-- What stands between the parentheses of `LOG(fmt, args...)`. -/
def loggingInside : List Token := tokensAt 1 [("fmt", 13), (",", 16), ("args", 18), ("...", 22)]

/-- The tokens of `#define LOG(fmt, args...) printf(fmt, args)`. -/
def logging : List Token :=
  ⟨"LOG", 1, 9⟩ :: ⟨"(", 1, 12⟩ :: (loggingInside ++ ⟨")", 1, 25⟩ :: tokensAt 1
    [("printf", 27), ("(", 33), ("fmt", 34), (",", 37), ("args", 39), (")", 43)])

/-- A parameter with a name that takes all further arguments becomes two parameters. -/
theorem ofTokens_logging :
    (MacroText.divided loggingInside).map MacroText.written = ["fmt", "args..."] ∧
      (MacroText.ofTokens logging).parameters? = some ["fmt", "args", "..."] := by
  decide +kernel

end DeclGraph
