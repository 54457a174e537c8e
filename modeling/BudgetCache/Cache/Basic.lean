import BudgetCache.Table.Operation

/-!
# Caches

A cache is a table with a name, which its texts and log lines show, and a recipe for fresh tables.
The recipe matters only when the cache is copied: the copy starts from a fresh table made for the
source's limit and takes over the source's entries from the oldest to the newest. Nothing is dropped
on the way, so a recipe that makes another limit may leave the copy over its limit.

A fresh table may have been used before the copy gets it. Then its clock and counters have moved,
and what happened to it is in the log under the name that it went by at that time, which need not be
the name of the cache. The entries that the copy takes over leave nothing in the log.
-/

namespace BudgetCache

/-- What a recipe makes. -/
structure Fresh (κ ν : Type) [BEq κ] [Hashable κ] where
  /-- The table from which a copy starts. -/
  table : Table κ ν
  /-- What making the table left in the log. -/
  log : List LogLine := []

namespace Fresh

variable {κ ν : Type} [BEq κ] [Hashable κ]

/-- A table that has never been used. -/
def unused (limit : Int) : Fresh κ ν :=
  { table := .empty limit }

/-- A table that went by `name` and has been through a history. -/
def used [Footprint ν] (name : String) (history : List (Operation κ ν)) (limit : Int) :
    Fresh κ ν :=
  let o := (Table.empty limit).run history
  { table := o.after, log := o.events.map (·.logLine name) }

end Fresh

/-- A named table that can be copied. -/
structure Cache (κ ν : Type) [BEq κ] [Hashable κ] extends Table κ ν where
  /-- What texts and log lines call the cache. -/
  name : String
  /-- Makes the table from which a copy starts, given a limit. -/
  recipe : Int → Fresh κ ν

namespace Cache

variable {κ ν α : Type} [BEq κ] [Hashable κ]

/-- The name of a cache that was given none. -/
def defaultName : String :=
  "LRUCache"

/-- The limit of a cache that was given none. -/
def defaultLimit : Int :=
  100

/-- An empty cache with a name, whose copies start from an unused table. -/
def empty (name : String) (limit : Int) : Cache κ ν :=
  { Table.empty limit with name, recipe := Fresh.unused }

/-- An empty cache that goes by the default name. -/
def ofLimit (limit : Int) : Cache κ ν :=
  empty defaultName limit

instance : Inhabited (Cache κ ν) :=
  ⟨ofLimit defaultLimit⟩

/-- The same cache with another recipe for fresh tables. -/
def withRecipe (c : Cache κ ν) (recipe : Int → Fresh κ ν) : Cache κ ν :=
  { c with recipe }

/-- Operates on the table of a cache. Name and recipe stay. -/
def onTable (c : Cache κ ν) (f : Table κ ν → Outcome (Table κ ν) α) : Outcome (Cache κ ν) α :=
  match c with
  | ⟨table, name, recipe⟩ =>
    let o := f table
    ⟨o.reply, ⟨o.after, name, recipe⟩, o.events⟩

/-- Carries out an operation. -/
def apply [Footprint ν] (c : Cache κ ν) (op : Operation κ ν) :
    Outcome (Cache κ ν) (Reply κ ν) :=
  c.onTable (·.apply op)

/-- A cache of the same name and recipe with the same entries in the same order. Its limit, counters
and clock come from the fresh table that it starts from. -/
def copy (c : Cache κ ν) : Cache κ ν :=
  { (c.recipe c.limit).table.pushAll (c.chain.fromOldest.map (·.2)) with
    name := c.name, recipe := c.recipe }

/-- What making a copy leaves in the log: only what making the fresh table does. -/
def copyLog (c : Cache κ ν) : List LogLine :=
  (c.recipe c.limit).log

@[simp]
theorem toTable_onTable (c : Cache κ ν) (f : Table κ ν → Outcome (Table κ ν) α) :
    (c.onTable f).after.toTable = (f c.toTable).after :=
  rfl

@[simp]
theorem reply_onTable (c : Cache κ ν) (f : Table κ ν → Outcome (Table κ ν) α) :
    (c.onTable f).reply = (f c.toTable).reply :=
  rfl

@[simp]
theorem events_onTable (c : Cache κ ν) (f : Table κ ν → Outcome (Table κ ν) α) :
    (c.onTable f).events = (f c.toTable).events :=
  rfl

end Cache

end BudgetCache
