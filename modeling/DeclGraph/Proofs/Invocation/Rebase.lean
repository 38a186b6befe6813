import DeclGraph.Invocation.Basic
import Mathlib

/-!
# Rebasing invocations

Joining path texts is associative (`joinText_assoc`), whichever of them start at the root, are empty
or end with a slash.  What decides is the separator behind a base: none follows where nothing is in
front of the entry or a slash is there already, so a base with its separator has none to follow
(`separator_append_separator`), and behind a text that is not empty only that text counts
(`separator_append`).

Main statement: `Invocation.rebase_rebase`.  Reading an invocation below one directory and then
below another is reading it once, below the two joined.
-/

namespace DeclGraph

/-! ### Separators -/

/-- Whether a text starts at the root. -/
def IsRooted (s : String) : Prop := s.toList.head? = some '/'

instance (s : String) : Decidable (IsRooted s) := inferInstanceAs (Decidable (_ = _))

/-- What comes between a base and the entries below it. -/
def separator (base : String) : String :=
  if base.isEmpty || base.toList.getLast? == some '/' then "" else "/"

theorem separator_append (base : String) {s : String} (hs : s ≠ "") :
    separator (base ++ s) = separator s := by
  have hcs : s.toList ≠ [] := by simpa using hs
  have hlast : (base ++ s).toList.getLast? = s.toList.getLast? := by
    rw [String.toList_append, List.getLast?_append_of_ne_nil _ hcs]
  have hempty : (base ++ s).isEmpty = s.isEmpty := by
    rw [Bool.eq_iff_iff, String.isEmpty_iff, String.isEmpty_iff, String.append_eq_empty_iff]
    exact and_iff_right_of_imp fun heq => absurd heq hs
  rw [separator, separator, hlast, hempty]

/-- Nothing more comes behind a separator. -/
theorem separator_append_separator (base : String) : separator (base ++ separator base) = "" := by
  by_cases h : (base.isEmpty || base.toList.getLast? == some '/') = true
  · have hnone : separator base = "" := if_pos h
    rw [hnone, String.append_empty, hnone]
  · have hslash : separator base = "/" := if_neg h
    rw [hslash, separator_append base (by decide)]
    decide

theorem isRooted_append {s : String} (hs : s ≠ "") (rest : String) :
    IsRooted (s ++ rest) ↔ IsRooted s := by
  have hcs : s.toList ≠ [] := by simpa using hs
  rw [IsRooted, IsRooted, String.toList_append, List.head?_append_of_ne_nil _ hcs]

/-! ### Joining -/

theorem joinText_of_isRooted (base : String) {entry : String} (h : IsRooted entry) :
    joinText base entry = entry := if_pos h

theorem joinText_of_not_isRooted (base : String) {entry : String} (h : ¬ IsRooted entry) :
    joinText base entry = base ++ separator base ++ entry := by
  have hslash : ¬ entry.toList.head? = some '/' := h
  rw [joinText, if_neg hslash, separator]
  split_ifs
  · rw [String.append_empty]
  · rfl

/-- Below nothing every text stands for itself. -/
theorem joinText_empty (entry : String) : joinText "" entry = entry := by
  by_cases h : IsRooted entry
  · exact joinText_of_isRooted "" h
  · rw [joinText_of_not_isRooted "" h]
    exact String.empty_append

/-- What is joined below a text that starts at the root does so too. -/
theorem isRooted_joinText {base : String} (h : IsRooted base) (entry : String) :
    IsRooted (joinText base entry) := by
  have hbase : base ≠ "" := by
    rintro rfl
    exact absurd h (by decide)
  by_cases hentry : IsRooted entry
  · rwa [joinText_of_isRooted base hentry]
  · rw [joinText_of_not_isRooted base hentry, String.append_assoc]
    exact (isRooted_append hbase _).2 h

/-- An entry below a directory below another one is the entry below the two joined. -/
theorem joinText_assoc (outer inner entry : String) :
    joinText outer (joinText inner entry) = joinText (joinText outer inner) entry := by
  by_cases hentry : IsRooted entry
  · -- the entry stands for itself below whatever
    rw [joinText_of_isRooted inner hentry, joinText_of_isRooted _ hentry,
      joinText_of_isRooted _ hentry]
  by_cases hinner : IsRooted inner
  · -- the inner directory is not below the outer one
    rw [joinText_of_isRooted outer (isRooted_joinText hinner entry),
      joinText_of_isRooted outer hinner]
  by_cases hempty : inner = ""
  · -- the separator behind the outer directory is not doubled
    have houter : joinText outer "" = outer ++ separator outer := by
      rw [joinText_of_not_isRooted outer (by decide), String.append_empty]
    rw [hempty, joinText_empty, houter, joinText_of_not_isRooted outer hentry,
      joinText_of_not_isRooted _ hentry, separator_append_separator, String.append_empty]
  · -- the separator behind the inner directory depends on that alone
    have hrelative : ¬ IsRooted (joinText inner entry) := by
      rw [joinText_of_not_isRooted inner hentry, String.append_assoc]
      exact fun h => hinner ((isRooted_append hempty _).1 h)
    rw [joinText_of_not_isRooted outer hrelative, joinText_of_not_isRooted inner hentry,
      joinText_of_not_isRooted outer hinner, joinText_of_not_isRooted _ hentry,
      separator_append _ hempty]
    simp only [String.append_assoc]

/-! ### Rebasing -/

namespace Invocation

/-- Everything but the inputs and the include directories stays as it is. -/
structure SameBesidePaths (inv inv' : Invocation) : Prop where
  /-- The name of the compiler stays. -/
  compiler : inv'.compiler = inv.compiler
  /-- The flags stay. -/
  flags : inv'.flags = inv.flags
  /-- The conformance flags stay. -/
  conformance : inv'.conformance = inv.conformance
  /-- The defined names stay, in their order. -/
  defines : inv'.defines = inv.defines
  /-- The output categories stay, in their order. -/
  files : inv'.files = inv.files
  /-- The warning codes stay, in their order. -/
  warnings : inv'.warnings = inv.warnings

/-- **Rebasing composes**: an invocation that is read below one directory and then below another is
read below the two joined.  Nothing but its inputs and include directories changes, and reading it
below a directory that starts at the root once more changes nothing at all. -/
theorem rebase_rebase (inv : Invocation) (inner outer : String) :
    (inv.rebase inner).rebase outer = inv.rebase (joinText outer inner) ∧
      SameBesidePaths inv ((inv.rebase inner).rebase outer) ∧
      (IsRooted inner → (inv.rebase inner).rebase inner = inv.rebase inner) := by
  have hcompose (outer : String) :
      (inv.rebase inner).rebase outer = inv.rebase (joinText outer inner) := by
    have hpaths (paths : List String) : (paths.map (joinText inner)).map (joinText outer)
        = paths.map (joinText (joinText outer inner)) := by
      rw [List.map_map]
      exact List.map_congr_left fun entry _ => joinText_assoc outer inner entry
    simp only [rebase, hpaths]
  refine ⟨hcompose outer, ⟨rfl, rfl, rfl, rfl, rfl, rfl⟩, fun hrooted => ?_⟩
  rw [hcompose inner, joinText_of_isRooted inner hrooted]

/-- An invocation with an empty input, one at the root and one that ends with a slash. -/
def scattered : Invocation :=
  { empty with
    inputs := ["", "/src/a.c", "sub/"]
    includes := [".", "//share"]
    defines := [("A", none)] }

/-- Below a directory without a slash and then below the root directory, and twice below the
latter. -/
theorem rebase_rebase_scattered :
    (scattered.rebase "lib").rebase "/" = scattered.rebase "/lib" ∧
      IsRooted "/lib" ∧
      ((scattered.rebase "/lib").rebase "/lib").inputs = ["/lib/", "/src/a.c", "/lib/sub/"] := by
  have hjoin : joinText "/" "lib" = "/lib" := by decide
  have hrooted : IsRooted "/lib" := by decide
  refine ⟨?_, hrooted, ?_⟩
  · rw [(rebase_rebase scattered "lib" "/").1, hjoin]
  · rw [(rebase_rebase scattered "/lib" "").2.2 hrooted]
    decide

end Invocation

end DeclGraph
