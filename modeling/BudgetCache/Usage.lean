import BudgetCache.Text.Json

/-!
# Usage statistics

A cache counts four kinds of events over its whole life. A report joins these counters with the
occupancy at one moment.
-/

namespace BudgetCache

/-- How often each kind of event has occurred. -/
structure Counters where
  /-- Lookups that found their key. -/
  hits : Nat := 0
  /-- Lookups that did not. -/
  misses : Nat := 0
  /-- Entries dropped to make room or to honour a lower limit. -/
  evictions : Nat := 0
  /-- Values refused because they are larger than the whole cache. -/
  rejections : Nat := 0
  deriving Repr, DecidableEq

namespace Counters

/-- One more lookup that found its key. -/
def hit (c : Counters) : Counters :=
  { c with hits := c.hits + 1 }

/-- One more lookup that did not find its key. -/
def miss (c : Counters) : Counters :=
  { c with misses := c.misses + 1 }

/-- One more entry dropped. -/
def eviction (c : Counters) : Counters :=
  { c with evictions := c.evictions + 1 }

/-- One more value refused. -/
def rejection (c : Counters) : Counters :=
  { c with rejections := c.rejections + 1 }

end Counters

/-- The counters together with the occupancy of the cache. -/
structure Usage extends Counters where
  /-- The number of entries. -/
  entries : Nat := 0
  /-- The space in use. -/
  space : Int := 0
  /-- The space that may be in use. -/
  limit : Int := 0
  deriving Repr, DecidableEq

namespace Usage

/-- The share of lookups that found their key; zero before the first lookup. -/
def hitRate (u : Usage) : Float :=
  if u.hits + u.misses = 0 then 0.0 else Float.ofNat u.hits / Float.ofNat (u.hits + u.misses)

/-- The report as a JSON object. -/
def json (u : Usage) : String :=
  Text.Json.object
    [("hits", Decimal.ofNat u.hits), ("misses", Decimal.ofNat u.misses),
      ("evictions", Decimal.ofNat u.evictions), ("rejections", Decimal.ofNat u.rejections),
      ("total_entries", Decimal.ofNat u.entries), ("current_space", Decimal.ofInt u.space),
      ("space_limit", Decimal.ofInt u.limit)]

end Usage

end BudgetCache
