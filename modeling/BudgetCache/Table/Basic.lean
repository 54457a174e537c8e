import BudgetCache.Budget
import BudgetCache.Chain.Order
import BudgetCache.Event
import BudgetCache.Footprint
import BudgetCache.Usage
import Std.Data.HashMap

/-!
# Tables

A table finds entries by key and keeps them in a chain by the time of their last touch, under a
budget. The index leads from each key to the slot of its entry. Two keys that are equal by `==` name
the same entry even if they can be told apart otherwise; the entry keeps the key it was created
with.

This module holds the questions that change nothing and the two steps from which every change is
built: `push` and `discard`.
-/

namespace BudgetCache

/-- Values by key, in the order of their last touch, within a budget. -/
structure Table (κ ν : Type) [BEq κ] [Hashable κ] where
  /-- The slot of each key's entry. -/
  index : Std.HashMap κ Nat := ∅
  /-- The entries. -/
  chain : Chain κ ν := .empty
  /-- The space in use and its limit. -/
  budget : Budget
  /-- How the table has been used. -/
  counters : Counters := {}

namespace Table

variable {κ ν : Type} [BEq κ] [Hashable κ]

/-- The table without entries. -/
def empty (limit : Int) : Table κ ν :=
  { budget := { limit } }

/-- The number of keys. -/
def size (t : Table κ ν) : Nat :=
  t.index.size

/-- Whether there is no key. -/
def isEmpty (t : Table κ ν) : Bool :=
  t.index.isEmpty

/-- The most space that may be in use. -/
def limit (t : Table κ ν) : Int :=
  t.budget.limit

/-- The space in use. -/
def used (t : Table κ ν) : Int :=
  t.budget.used

/-- The entry of a key. -/
def find? (t : Table κ ν) (key : κ) : Option (Entry κ ν) :=
  t.index[key]?.bind t.chain.get?

/-- The value of a key. Looking this way is no touch and is not counted. -/
def peek (t : Table κ ν) (key : κ) : Option ν :=
  (t.find? key).map (·.value)

/-- The stored key that equals `key`, or `key` itself if there is none. -/
def storedKey (t : Table κ ν) (key : κ) : κ :=
  ((t.find? key).map (·.key)).getD key

/-- Whether a key has an entry. -/
def contains (t : Table κ ν) (key : κ) : Bool :=
  t.index.contains key

/-- The stored keys with their values, in no particular order. -/
def toList (t : Table κ ν) : List (κ × ν) :=
  (t.index.toList.filterMap fun pair => t.chain.get? pair.2).map fun entry =>
    (entry.key, entry.value)

/-- The stored keys, in no particular order. -/
def keys (t : Table κ ν) : List κ :=
  t.toList.map (·.1)

/-- The key touched longest ago. -/
def oldestKey? (t : Table κ ν) : Option κ :=
  t.chain.back?.map (·.key)

/-- The stamp of the oldest entry; zero without entries. -/
def oldestStamp (t : Table κ ν) : Nat :=
  (t.chain.back?.map (·.stamp)).getD 0

/-- The stamp of the newest entry; zero without entries. -/
def newestStamp (t : Table κ ν) : Nat :=
  (t.chain.front?.map (·.stamp)).getD 0

/-- The keys from the oldest entry to the newest. -/
def keysByAge (t : Table κ ν) : List κ :=
  t.chain.fromOldest.map (·.2.key)

/-- The percentage of the limit in use. -/
def percentUsed (t : Table κ ν) : Float :=
  t.budget.percentUsed

/-- The counters and the present occupancy. -/
def usage (t : Table κ ν) : Usage :=
  { t.counters with entries := t.size, space := t.used, limit := t.limit }

/-- Adds an entry as the newest one, whether or not it fits the budget. -/
def push (t : Table κ ν) (key : κ) (value : ν) (footprint : Int) : Table κ ν :=
  let (slot, chain) := t.chain.insert { key, value, footprint }
  { t with index := t.index.insert key slot, chain, budget := t.budget.charge footprint }

/-- Adds entries in the given order, each as the newest, keeping their footprints. -/
def pushAll (t : Table κ ν) (entries : List (Entry κ ν)) : Table κ ν :=
  entries.foldl (fun t entry => t.push entry.key entry.value entry.footprint) t

/-- Removes the entry in a slot and tells what it was. A stale slot changes nothing. -/
def discard (t : Table κ ν) (slot : Nat) : Option (Entry κ ν) × Table κ ν :=
  match t.chain.remove slot with
  | (none, _) => (none, t)
  | (some entry, chain) =>
    (some entry,
      { t with
        index := t.index.erase entry.key
        chain
        budget := t.budget.release entry.footprint })

end Table

end BudgetCache
