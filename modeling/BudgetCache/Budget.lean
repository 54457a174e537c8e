/-!
# Budgets

A budget keeps the space that a cache uses against the limit it was given. The space in use is kept
up to date by one charge, release or exchange for each change of the cache, so that it need never be
summed up again. Every integer is allowed as a limit: under a limit of zero only entries of
footprint zero have a place, and under a lower one none has.

The account is an integer without a bound. It stays in the range of signed 64-bit numbers as long as
footprints are below `2 ^ 32` and there are fewer than `2 ^ 31` entries; limits outside that range
cannot be written in a script.
-/

namespace BudgetCache

/-- The space in use and the most space that may be in use. -/
structure Budget where
  /-- The space in use. -/
  used : Int := 0
  /-- The space that may be in use. -/
  limit : Int
  deriving Repr, DecidableEq

namespace Budget

/-- Counts a new entry. -/
def charge (b : Budget) (footprint : Int) : Budget :=
  { b with used := b.used + footprint }

/-- Counts the loss of an entry. -/
def release (b : Budget) (footprint : Int) : Budget :=
  { b with used := b.used - footprint }

/-- Counts the change of an entry's footprint from `old` to `new`. -/
def exchange (b : Budget) (old new : Int) : Budget :=
  { b with used := b.used + (new - old) }

/-- Counts the loss of every entry. -/
def clear (b : Budget) : Budget :=
  { b with used := 0 }

/-- Whether `extra` more units stay within the limit. -/
def fits (b : Budget) (extra : Int) : Bool :=
  decide (b.used + extra ≤ b.limit)

/-- Whether a footprint of `new` in the place of one of `old` stays within the limit. -/
def fitsInPlaceOf (b : Budget) (old new : Int) : Bool :=
  decide (b.used - old + new ≤ b.limit)

/-- Whether a footprint is too large even for an empty cache. -/
def neverFits (b : Budget) (footprint : Int) : Bool :=
  decide (b.limit < footprint)

/-- The percentage of the limit in use. A limit of zero makes it undefined or infinite. -/
def percentUsed (b : Budget) : Float :=
  Float.ofInt b.used * 100.0 / Float.ofInt b.limit

end Budget

end BudgetCache
