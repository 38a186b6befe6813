/-!
# Log lines

What a run tells about itself while it goes on: a level and a line of text.
-/

namespace DeclGraph

/-- How grave a line is. -/
inductive Level
  | debug
  | info
  | warning
  | error
deriving DecidableEq, Repr

/-- The word for a level. -/
def Level.name : Level → String
  | .debug => "DEBUG"
  | .info => "INFO"
  | .warning => "WARNING"
  | .error => "ERROR"

/-- A line of the log. -/
structure LogLine where
  /-- How grave it is. -/
  level : Level
  /-- What it says. -/
  text : String
deriving DecidableEq, Repr

namespace LogLine

/-- A line for those who look closely. -/
def debug (text : String) : LogLine := ⟨.debug, text⟩

/-- A line about the normal course of things. -/
def info (text : String) : LogLine := ⟨.info, text⟩

/-- A line about something that went wrong as it may. -/
def warning (text : String) : LogLine := ⟨.warning, text⟩

/-- A line about something that should not have gone wrong. -/
def error (text : String) : LogLine := ⟨.error, text⟩

end LogLine

end DeclGraph
