import DeclGraph.Json.Printer

/-!
# Writing JSON with a stack

`Json.write` writes a value on one line as `Json.render` does, without recursion on the value: a
stack holds what is still to be written.  A value is taken off and either written or replaced by
its brackets, separators and parts.  Each step lowers the weight of the stack
(`weigh_itemJobs`, `weigh_entryJobs`), so the writer ends.
-/

namespace DeclGraph

namespace Json

/-- What is still to be written: a piece of text or a value. -/
inductive Job
  | text (s : String)
  | value (v : Json)

/-- The items of an array as jobs, with separators in front of all but the first. -/
def itemJobs : List Json → List Job
  | [] => []
  | [v] => [.value v]
  | v :: w :: rest => .value v :: .text ", " :: itemJobs (w :: rest)

/-- The entries of an object as jobs; `lead` stands in front of the first name. -/
def entryJobs (lead : String) : List (String × Json) → List Job
  | [] => []
  | (k, v) :: rest => .text (lead ++ quote k ++ ": ") :: .value v :: entryJobs ", " rest

mutual

/-- How many steps a value takes at most. -/
def weight : Json → Nat
  | .array items => 2 + weightItems items
  | .object entries => 2 + weightEntries entries
  | _ => 1

/-- How many steps the items of an array take at most. -/
def weightItems : List Json → Nat
  | [] => 0
  | v :: rest => weight v + 1 + weightItems rest

/-- How many steps the entries of an object take at most. -/
def weightEntries : List (String × Json) → Nat
  | [] => 0
  | (_, v) :: rest => weight v + 1 + weightEntries rest

end

/-- How many steps a job takes at most. -/
def Job.weight : Job → Nat
  | .text _ => 1
  | .value v => v.weight

/-- How many steps a stack takes at most. -/
def weigh : List Job → Nat
  | [] => 0
  | j :: rest => j.weight + weigh rest

theorem weigh_append (a b : List Job) : weigh (a ++ b) = weigh a + weigh b := by
  induction a with
  | nil => simp [weigh]
  | cons j rest ih => simp only [List.cons_append, weigh, ih]; omega

theorem weigh_itemJobs (items : List Json) : weigh (itemJobs items) ≤ weightItems items := by
  induction items with
  | nil => simp [itemJobs, weigh]
  | cons v rest ih =>
    cases rest with
    | nil => simp [itemJobs, weigh, weightItems, Job.weight]
    | cons w rest => simp only [itemJobs, weigh, weightItems, Job.weight] at *; omega

theorem weigh_entryJobs (lead : String) (entries : List (String × Json)) :
    weigh (entryJobs lead entries) = weightEntries entries := by
  induction entries generalizing lead with
  | nil => simp [entryJobs, weigh, weightEntries]
  | cons e rest ih =>
    obtain ⟨k, v⟩ := e
    simp only [entryJobs, weigh, weightEntries, Job.weight, ih]; omega

/-- Every value takes a step. -/
theorem weight_pos (v : Json) : 0 < v.weight := by cases v <;> simp only [weight] <;> omega

/-- The text of a value that holds no others. -/
def renderLeaf : Json → String
  | .array _ => "[]"
  | .object _ => "\x7b\x7d"
  | v => render v

/-- Writes what is on the stack behind what is written. -/
def writeJobs : List Job → String → String
  | [], done => done
  | .text s :: stack, done => writeJobs stack (done ++ s)
  | .value (.array items) :: stack, done =>
    writeJobs (itemJobs items ++ .text "]" :: stack) (done ++ "[")
  | .value (.object entries) :: stack, done =>
    writeJobs (entryJobs "" entries ++ .text "\x7d" :: stack) (done ++ "\x7b")
  | .value v :: stack, done => writeJobs stack (done ++ renderLeaf v)
termination_by stack => weigh stack
decreasing_by
  · simp [weigh, Job.weight]
  · have := weigh_itemJobs items
    simp only [weigh, Job.weight, weight, weigh_append]; omega
  · have := weigh_entryJobs "" entries
    simp only [weigh, Job.weight, weight, weigh_append]; omega
  · have := weight_pos v
    simp only [weigh, Job.weight]; omega

/-- Writes a value on one line. -/
def write (v : Json) : String := writeJobs [.value v] ""

end Json

end DeclGraph
