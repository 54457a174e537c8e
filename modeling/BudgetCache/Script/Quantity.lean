import BudgetCache.Decimal.Whole

/-!
# Quantities in scripts and settings

Scripts and settings write two kinds of numbers. A cost is a natural number that fits in 32 bits; a
limit is an integer that fits in 64 bits with its sign. A plus sign and leading zeros are allowed in
both, a minus sign only in a limit.
-/

namespace BudgetCache.Quantity

/-- Costs are below this number. -/
def costBound : Nat :=
  Nat.pow 2 32

/-- Limits are below this number, and their negatives do not exceed it. -/
def limitBound : Nat :=
  Nat.pow 2 63

/-- Reads a cost. -/
def cost? (text : String) : Option Nat :=
  Decimal.natBelow? costBound text

/-- Reads a limit. -/
def limit? (text : String) : Option Int :=
  Decimal.intWithin? limitBound text

end BudgetCache.Quantity
