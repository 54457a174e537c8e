/-!
# Footprints

Every cached value takes up a whole number of units of the space that its cache may use. A value
without a size of its own takes one unit, which turns the space limit into a count of entries.
-/

namespace BudgetCache

universe u

/-- Types whose values take up space in a cache. -/
class Footprint (ν : Type u) where
  /-- The units of space that a value takes up. -/
  footprint : ν → Nat := fun _ => 1

instance : Footprint Unit where

instance : Footprint Bool where

instance : Footprint Char where

instance : Footprint Nat where

instance : Footprint Int where

instance : Footprint Float where

instance : Footprint String where

instance {α : Type u} : Footprint (List α) where

instance {α : Type u} : Footprint (Array α) where

instance {α : Type u} : Footprint (Option α) where

/-- A value together with the means to measure it, its own type hidden. -/
structure Measured where
  /-- The type of the value. -/
  carrier : Type
  /-- How values of that type are measured. -/
  measure : Footprint carrier
  /-- The value. -/
  value : carrier

/-- A measured value takes up what the value inside takes up. -/
instance : Footprint Measured where
  footprint m := m.measure.footprint m.value

/-- The space that a value is charged for. -/
def spaceOf {ν : Type u} [Footprint ν] (value : ν) : Int :=
  Footprint.footprint value

theorem spaceOf_nonneg {ν : Type u} [Footprint ν] (value : ν) : 0 ≤ spaceOf value :=
  Int.natCast_nonneg _

end BudgetCache
