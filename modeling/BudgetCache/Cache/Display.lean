import BudgetCache.Cache.Basic
import BudgetCache.Decimal.Fixed
import BudgetCache.Text.Quoted

/-!
# Texts of a cache

A cache has three texts. The heading tells how full it is. The dump is the heading followed by one
row for each entry, the rows in the order of their key texts, so that neither the history of the
cache nor the order of its index shows. The summary is one line about its size.
-/

namespace BudgetCache

/-- Types whose values have a text in a dump. -/
class Shown (α : Type) where
  /-- The text of a value. -/
  shown : α → String

instance : Shown String where
  shown text := text

instance : Shown Int where
  shown z := Decimal.ofInt z

instance : Shown Nat where
  shown n := Decimal.ofNat n

namespace Cache

variable {κ ν : Type} [BEq κ] [Hashable κ]

/-- A percentage with at most three fraction digits. -/
def percentage (ratio : Float) : String :=
  (Decimal.FloatValue.ofFloat ratio).trimmed 3

/-- How full the cache is, under a name of the caller's choice. -/
def heading (c : Cache κ ν) (name : String) : String :=
  name ++ "[" ++ Decimal.ofInt c.limit ++ "]: " ++ percentage c.percentUsed ++ "% full"

/-- The row of an entry. -/
def row (key value : String) : String :=
  key ++ " -> " ++ value ++ "\n"

/-- The texts of the keys and values, in the order of the key texts. -/
def rows [Shown κ] [Shown ν] (c : Cache κ ν) : List (String × String) :=
  (c.toList.map fun pair => (Shown.shown pair.1, Shown.shown pair.2)).mergeSort
    fun a b => decide (a.1 ≤ b.1)

/-- The heading and the rows, each on a line of its own. -/
def dump [Shown κ] [Shown ν] (c : Cache κ ν) : String :=
  c.heading c.name ++ "\n" ++ String.join (c.rows.map fun pair => row pair.1 pair.2)

/-- One line about the size of the cache. -/
def summary (c : Cache κ ν) : String :=
  "LruCache \x7b name: " ++ Text.quoted c.name ++ ", space_limit: " ++ Decimal.ofInt c.limit ++
    ", current_space: " ++ Decimal.ofInt c.used ++ ", entries: " ++ Decimal.ofNat c.size ++ " \x7d"

end Cache

end BudgetCache
