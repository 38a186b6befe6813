/-!
# Joining path texts

`joinText base entry` reads `entry` below the directory `base`, as texts: an entry that starts at
the root stands for itself, and a slash comes between unless there is one or the base is empty.
-/

namespace DeclGraph

/-- The text of `entry` below `base`. -/
def joinText (base entry : String) : String :=
  if entry.toList.head? = some '/' then entry
  else if base.isEmpty || base.toList.getLast? == some '/' then base ++ entry
  else base ++ "/" ++ entry

end DeclGraph
