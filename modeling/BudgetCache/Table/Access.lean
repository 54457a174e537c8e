import BudgetCache.Table.Eviction

/-!
# Access by key

Looking up, storing and removing values. A lookup that finds its key and a stored value touch their
entry, which makes it the newest one. Storing under a key that is present changes the entry where it
is if the new footprint fits in the place of the old one. Otherwise the entry is dropped, which does
not count as an eviction, and the value is stored as if its key had been absent.
-/

namespace BudgetCache

namespace Table

variable {κ ν : Type} [BEq κ] [Hashable κ]

/-- The value of a key, which is touched. Every call counts as a hit or as a miss. -/
def get (t : Table κ ν) (key : κ) : Outcome (Table κ ν) (Option ν) :=
  match t.index[key]? with
  | none => { reply := none, after := { t with counters := t.counters.miss } }
  | some slot =>
    let chain := t.chain.touch slot
    { reply := (chain.get? slot).map (·.value)
      after := { t with chain, counters := t.counters.hit } }

/-- Touches the entry in a slot and gives it another value. -/
def replaceAt (t : Table κ ν) (slot : Nat) (value : ν) (footprint : Int) : Table κ ν :=
  match (t.chain.touch slot).replace slot value footprint with
  | (none, chain) => { t with chain }
  | (some old, chain) => { t with chain, budget := t.budget.exchange old footprint }

/-- Stores a value under an absent key, making room for it. A value larger than the limit is refused
and counted. -/
def insertAbsent (t : Table κ ν) (key : κ) (value : ν) (footprint : Int) : Table κ ν × List Event :=
  match t.makeRoom? footprint with
  | some (roomy, events) => (roomy.push key value footprint, events)
  | none =>
    ({ t with counters := t.counters.rejection }, [.rejected footprint t.limit])

/-- Stores a value under a key. The reply is the value, whether it was stored or refused. -/
def put [Footprint ν] (t : Table κ ν) (key : κ) (value : ν) : Outcome (Table κ ν) ν :=
  let footprint := spaceOf value
  match t.index[key]? with
  | some slot =>
    let old := ((t.chain.get? slot).map (·.footprint)).getD 0
    if t.budget.fitsInPlaceOf old footprint then
      { reply := value, after := t.replaceAt slot value footprint }
    else
      let (after, events) := (t.discard slot).2.insertAbsent key value footprint
      { reply := value, after, events }
  | none =>
    let (after, events) := t.insertAbsent key value footprint
    { reply := value, after, events }

/-- Removes a key and tells the value it had. -/
def remove (t : Table κ ν) (key : κ) : Outcome (Table κ ν) (Option ν) :=
  match t.index[key]? with
  | none => { reply := none, after := t }
  | some slot =>
    let (entry, after) := t.discard slot
    { reply := entry.map (·.value), after }

/-- Removes every key. Counters, limit and clock stay. -/
def clear (t : Table κ ν) : Outcome (Table κ ν) Unit :=
  { reply := ()
    after := { t with index := ∅, chain := t.chain.clear, budget := t.budget.clear }
    events := [.flushing t.size] }

/-- Removes a key, if it is there. -/
def erase (t : Table κ ν) (key : κ) : Outcome (Table κ ν) Unit :=
  (t.remove key).map fun _ => ()

end Table

end BudgetCache
