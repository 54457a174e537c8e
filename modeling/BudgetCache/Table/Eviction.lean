import BudgetCache.Table.Basic

/-!
# Eviction

Room is made by dropping the oldest entry again and again. There are two occasions. A new value
needs room for itself, and one that is larger than the whole limit gets none. A lower limit has to
be honoured by the entries already there. Each of the two is a condition on the budget, and
`evictUntil` drops entries until its condition holds or no entry is left.
-/

namespace BudgetCache

namespace Table

variable {κ ν : Type} [BEq κ] [Hashable κ]

/-- Drops the entry in a slot and counts that. A stale slot changes nothing. -/
def evict (t : Table κ ν) (slot : Nat) : Table κ ν × List Event :=
  match t.discard slot with
  | (none, t) => (t, [])
  | (some entry, t) =>
    ({ t with counters := t.counters.eviction }, [.evicted entry.footprint entry.stamp])

/-- Drops at most `fuel` entries, oldest first, until the budget satisfies `done`. -/
def evictUntil (done : Budget → Bool) : Nat → Table κ ν → Table κ ν × List Event
  | 0, t => (t, [])
  | fuel + 1, t =>
    if done t.budget then (t, [])
    else
      match t.chain.oldest with
      | none => (t, [])
      | some slot =>
        let (next, first) := t.evict slot
        let (last, rest) := evictUntil done fuel next
        (last, first ++ rest)

/-- Makes room for `footprint` more units, or refuses if they exceed the limit. -/
def makeRoom? (t : Table κ ν) (footprint : Int) : Option (Table κ ν × List Event) :=
  if t.budget.fits footprint then some (t, [])
  else if t.budget.neverFits footprint then none
  else some (evictUntil (·.fits footprint) t.chain.size t)

/-- Changes the limit. A lower limit drops the oldest entries until the rest stays within it; a
higher one drops nothing. -/
def setLimit (t : Table κ ν) (limit : Int) : Outcome (Table κ ν) Unit :=
  if limit < t.limit then
    let (fitting, events) := evictUntil (fun b => decide (b.used ≤ limit)) t.chain.size t
    { reply := ()
      after := { fitting with budget := { fitting.budget with limit } }
      events := events ++ [.limitLowered t.limit limit (t.size - fitting.size)] }
  else
    { reply := (), after := { t with budget := { t.budget with limit } } }

end Table

end BudgetCache
