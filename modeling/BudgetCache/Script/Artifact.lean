import BudgetCache.Cache.Display
import BudgetCache.Text.Json

/-!
# Artifacts

The values that scripts store: a text with a cost. The cost is the artifact's footprint.
-/

namespace BudgetCache

/-- A text and what it costs to keep. -/
structure Artifact where
  /-- The text. -/
  text : String
  /-- The space that the artifact takes up. -/
  cost : Nat
  deriving Repr, DecidableEq

namespace Artifact

instance : Footprint Artifact where
  footprint a := a.cost

/-- The text followed by the cost in parentheses. -/
def display (a : Artifact) : String :=
  a.text ++ " (" ++ Decimal.ofNat a.cost ++ ")"

instance : Shown Artifact where
  shown a := a.display

/-- The artifact as a JSON object. -/
def json (a : Artifact) : String :=
  Text.Json.object [("text", Text.Json.string a.text), ("cost", Decimal.ofNat a.cost)]

end Artifact

end BudgetCache
