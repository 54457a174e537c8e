/-!
# Log lines

A log line is a message with a severity. Who shows which severities is decided where the lines are
shown; the library only collects them, in the order in which they arise.
-/

namespace BudgetCache

/-- How urgent a log line is. -/
inductive Severity where
  /-- Of use when looking for a fault. -/
  | debug
  /-- Progress worth a note. -/
  | info
  /-- Input that was skipped. -/
  | warn
  deriving Repr, DecidableEq

namespace Severity

/-- The label in front of a shown line. -/
def label : Severity → String
  | .debug => "DEBUG"
  | .info => "INFO"
  | .warn => "WARN"

end Severity

/-- One line of a log. -/
structure LogLine where
  /-- How urgent the line is. -/
  severity : Severity
  /-- What the line tells. -/
  message : String
  deriving Repr, DecidableEq

namespace LogLine

/-- The line as it is shown. -/
def render (line : LogLine) : String :=
  line.severity.label ++ " " ++ line.message

end LogLine

end BudgetCache
