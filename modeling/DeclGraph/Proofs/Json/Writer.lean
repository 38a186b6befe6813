import DeclGraph.Json.Stream

/-!
# The writer with a stack and the recursive printer

`Json.write` and `Json.render` give the same text for every value (`write_eq_render`).  A stack
stands for the rest of the document (`spelledJobs`): a step either takes a piece of text off the
stack and puts it behind what is written, or it lays out a value as its brackets, separators and
parts, which stand for the same text.  So what is written and what is left make up one text all
along (`writeJobs_eq`).

What that text is needs no stack either: it is the texts of the parts with `", "` in between
(`renderItems_eq_intercalate`, `renderEntries_eq_intercalate`).  `write_spec` puts both together.
-/

namespace DeclGraph

namespace Json

/-! ### What a stack stands for -/

/-- The text that a job stands for. -/
def Job.spelled : Job → String
  | .text s => s
  | .value v => v.render

/-- The text that a stack stands for. -/
def spelledJobs : List Job → String
  | [] => ""
  | j :: rest => j.spelled ++ spelledJobs rest

theorem spelledJobs_append (a b : List Job) :
    spelledJobs (a ++ b) = spelledJobs a ++ spelledJobs b := by
  induction a with
  | nil => simp [spelledJobs]
  | cons j rest ih => rw [List.cons_append, spelledJobs, spelledJobs, ih, String.append_assoc]

theorem spelledJobs_itemJobs (items : List Json) :
    spelledJobs (itemJobs items) = renderItems items := by
  induction items with
  | nil => rfl
  | cons v rest ih =>
    cases rest with
    | nil => simp [itemJobs, spelledJobs, Job.spelled, renderItems]
    | cons w rest =>
      rw [itemJobs, spelledJobs, spelledJobs, ih, renderItems, String.append_assoc]
      rfl

/-- The jobs of entries stand for what leads them and the entries. -/
theorem spelledJobs_entryJobs (lead : String) (e : String × Json) (rest : List (String × Json)) :
    spelledJobs (entryJobs lead (e :: rest)) = lead ++ renderEntries (e :: rest) := by
  induction rest generalizing lead e with
  | nil =>
    obtain ⟨k, v⟩ := e
    simp [entryJobs, spelledJobs, Job.spelled, renderEntries, String.append_assoc]
  | cons f rest ih =>
    obtain ⟨k, v⟩ := e
    rw [entryJobs, spelledJobs, spelledJobs, ih, renderEntries]
    simp only [Job.spelled, String.append_assoc]

/-- What is on the stack is written behind what is written. -/
theorem writeJobs_eq (jobs : List Job) (done : String) :
    writeJobs jobs done = done ++ spelledJobs jobs := by
  induction jobs, done using writeJobs.induct with
  | case1 done => rw [writeJobs, spelledJobs, String.append_empty]
  | case2 s stack done ih => rw [writeJobs, ih, spelledJobs, Job.spelled, String.append_assoc]
  | case3 items stack done ih =>
    rw [writeJobs, ih, spelledJobs_append, spelledJobs_itemJobs, spelledJobs, spelledJobs,
      Job.spelled, Job.spelled, render]
    simp only [String.append_assoc]
  | case4 entries stack done ih =>
    rw [writeJobs, ih, spelledJobs_append, spelledJobs, spelledJobs, Job.spelled, Job.spelled,
      render]
    cases entries with
    | nil =>
      simp only [entryJobs, spelledJobs, renderEntries, String.append_assoc, String.empty_append]
    | cons e rest => simp [spelledJobs_entryJobs, String.append_assoc]
  | case5 v stack done harray hobject ih =>
    -- what is neither array nor object is written by the same function
    have hleaf : renderLeaf v = v.render := by
      unfold renderLeaf
      split
      · next items => exact absurd rfl (harray items)
      · next entries => exact absurd rfl (hobject entries)
      · rfl
    rw [writeJobs, ih, hleaf, spelledJobs, Job.spelled, String.append_assoc]
    · exact harray
    · exact hobject

/-- The writer with a stack writes what the recursive printer writes. -/
theorem write_eq_render (v : Json) : v.write = v.render := by
  rw [write, writeJobs_eq, spelledJobs, spelledJobs, Job.spelled, String.append_empty,
    String.empty_append]

/-! ### Separators -/

/-- The items of an array are their texts with `", "` in between. -/
theorem renderItems_eq_intercalate (items : List Json) :
    renderItems items = ", ".intercalate (items.map render) := by
  induction items with
  | nil => rw [renderItems, List.map_nil, String.intercalate_nil]
  | cons v rest ih =>
    cases rest with
    | nil => rw [renderItems, List.map_cons, List.map_nil, String.intercalate_singleton]
    | cons w rest =>
      rw [List.map_cons] at ih
      rw [renderItems, ih, List.map_cons, List.map_cons, String.intercalate_cons_cons]

/-- An entry of an object on one line, for a way to write its value. -/
def entryText (text : Json → String) (e : String × Json) : String :=
  quote e.1 ++ ": " ++ text e.2

/-- The entries of an object are their texts with `", "` in between. -/
theorem renderEntries_eq_intercalate (entries : List (String × Json)) :
    renderEntries entries = ", ".intercalate (entries.map (entryText render)) := by
  induction entries with
  | nil => rw [renderEntries, List.map_nil, String.intercalate_nil]
  | cons e rest ih =>
    obtain ⟨k, v⟩ := e
    cases rest with
    | nil =>
      rw [renderEntries, List.map_cons, List.map_nil, String.intercalate_singleton, entryText]
    | cons f rest =>
      rw [List.map_cons] at ih
      have hentry : quote k ++ ": " ++ render v = entryText render (k, v) := rfl
      rw [renderEntries, ih, hentry, List.map_cons, List.map_cons, String.intercalate_cons_cons]

/-- The writer with a stack is the recursive printer.  Whatever is on the stack, what it stands
for comes behind what is written; a whole value is written as it is printed; and the text of an
array or an object has its brackets around the texts of its parts, in their order and with `", "`
between two of them, an entry with its escaped name and `": "` in front. -/
theorem write_spec :
    (∀ jobs done, writeJobs jobs done = done ++ spelledJobs jobs) ∧
    (∀ v : Json, v.write = v.render) ∧
    (∀ items : List Json,
      (Json.array items).write = "[" ++ ", ".intercalate (items.map write) ++ "]") ∧
    (∀ entries : List (String × Json),
      (Json.object entries).write
        = "\x7b" ++ ", ".intercalate (entries.map (entryText write)) ++ "\x7d") ∧
    (∀ s : String, (Json.string s).write = quote s) ∧
    (∀ n : Int, (Json.int n).write = Number.ofInt n) ∧
    (∀ x, (Json.float x).write = Number.Layout.document.render x) ∧
    (Json.bool true).write = "true" ∧ (Json.bool false).write = "false" ∧
    Json.null.write = "null" := by
  -- everything but the first statement is about the printer
  have hwrite : write = render := funext write_eq_render
  refine ⟨writeJobs_eq, write_eq_render, ?_⟩
  rw [hwrite]
  refine ⟨fun items => ?_, fun entries => ?_, fun s => ?_, fun n => ?_, fun x => ?_, ?_, ?_, ?_⟩
  · rw [render, renderItems_eq_intercalate]
  · rw [render, renderEntries_eq_intercalate]
  · rw [render]
  · rw [render]
  · rw [render]
  · rw [render, if_pos rfl]
  · rw [render, if_neg Bool.false_ne_true]
  · rw [render]

end Json

end DeclGraph
