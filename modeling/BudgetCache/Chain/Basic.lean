/-!
# Chains

An entry is a key with its value and the space that the value takes up. A chain orders entries from
the newest, which was touched last, to the oldest. The entries live in numbered slots, and an entry
names its two neighbours by their slots. An entry keeps its slot as long as it is in the chain. The
slot of a removed entry is vacant until a later entry takes it; the slot vacated last is taken
first. Each touch gets the next stamp of a clock that never goes back, not even when the chain is
cleared, so stamps decrease along the chain from the newest entry on.

A slot number may be stale: its slot may have been vacated or may never have been used. Every
operation says what it does then.
-/

namespace BudgetCache

/-- One key and value with its place in a chain. -/
structure Entry (κ ν : Type) where
  /-- The key, as first stored. -/
  key : κ
  /-- The value. -/
  value : ν
  /-- The space that the value takes up. -/
  footprint : Int
  /-- When the entry was last touched; a later touch has a larger stamp. -/
  stamp : Nat := 0
  /-- The slot of the neighbour touched next after this entry. -/
  newer : Option Nat := none
  /-- The slot of the neighbour touched last before this entry. -/
  older : Option Nat := none
  deriving Repr, DecidableEq

namespace Entry

variable {κ ν : Type}

/-- The entry with another value and footprint. Its key and its place stay. -/
def replace (entry : Entry κ ν) (value : ν) (footprint : Int) : Entry κ ν :=
  { entry with value, footprint }

end Entry

/-- Entries in slots, linked from the newest to the oldest. -/
structure Chain (κ ν : Type) where
  /-- The slots; a vacant one holds nothing. -/
  slots : Array (Option (Entry κ ν)) := #[]
  /-- The vacant slots, the one vacated last in front. -/
  vacant : List Nat := []
  /-- The slot of the newest entry. -/
  newest : Option Nat := none
  /-- The slot of the oldest entry. -/
  oldest : Option Nat := none
  /-- The number of entries. -/
  size : Nat := 0
  /-- The next stamp. -/
  clock : Nat := 0
  deriving Repr

namespace Chain

variable {κ ν : Type}

/-- The chain without entries whose clock has not started. -/
def empty : Chain κ ν :=
  {}

/-- Whether there is no entry. -/
def isEmpty (c : Chain κ ν) : Bool :=
  c.size == 0

/-- The entry in a slot. -/
def get? (c : Chain κ ν) (slot : Nat) : Option (Entry κ ν) :=
  c.slots[slot]?.join

/-- The newest entry. -/
def front? (c : Chain κ ν) : Option (Entry κ ν) :=
  c.newest.bind c.get?

/-- The oldest entry. -/
def back? (c : Chain κ ν) : Option (Entry κ ν) :=
  c.oldest.bind c.get?

/-- Changes the entry in a slot, if there is one. -/
def modify (c : Chain κ ν) (slot : Nat) (f : Entry κ ν → Entry κ ν) : Chain κ ν :=
  { c with slots := c.slots.modify slot (Option.map f) }

/-- Puts an entry into a slot, or nothing. -/
def fill (c : Chain κ ν) (slot : Nat) (content : Option (Entry κ ν)) : Chain κ ν :=
  { c with slots := c.slots.setIfInBounds slot content }

/-! ## Links -/

/-- Sets what comes next on the older side of a neighbour. Without a neighbour that is the newest
entry. -/
def setOlder (c : Chain κ ν) (neighbour older : Option Nat) : Chain κ ν :=
  match neighbour with
  | some slot => c.modify slot fun entry => { entry with older }
  | none => { c with newest := older }

/-- Sets what comes next on the newer side of a neighbour. Without a neighbour that is the oldest
entry. -/
def setNewer (c : Chain κ ν) (neighbour newer : Option Nat) : Chain κ ν :=
  match neighbour with
  | some slot => c.modify slot fun entry => { entry with newer }
  | none => { c with oldest := newer }

/-- Takes the entry in a slot out of the order, leaving it in its slot without neighbours. A stale
slot changes nothing. -/
def detach (c : Chain κ ν) (slot : Nat) : Chain κ ν :=
  match c.get? slot with
  | none => c
  | some entry =>
    let alone := c.modify slot fun entry => { entry with newer := none, older := none }
    (alone.setOlder entry.newer entry.older).setNewer entry.older entry.newer

/-- Makes a detached entry the newest one and stamps it. A stale slot uses up a stamp and changes
nothing else. -/
def attach (c : Chain κ ν) (slot : Nat) : Chain κ ν :=
  let ticked := { c with clock := c.clock + 1 }
  match c.get? slot with
  | none => ticked
  | some _ =>
    let stamped := ticked.modify slot fun entry =>
      { entry with stamp := c.clock, newer := none, older := c.newest }
    { stamped.setNewer c.newest (some slot) with newest := some slot }

/-! ## Operations -/

/-- Adds an entry as the newest one and tells its slot. The stamp and the neighbours that the entry
had before do not matter. -/
def insert (c : Chain κ ν) (entry : Entry κ ν) : Nat × Chain κ ν :=
  match c.vacant with
  | slot :: vacant =>
    (slot, ({ c.fill slot (some entry) with vacant, size := c.size + 1 }).attach slot)
  | [] =>
    let slot := c.slots.size
    (slot, ({ c with slots := c.slots.push (some entry), size := c.size + 1 }).attach slot)

/-- Removes the entry in a slot and tells what it was, without neighbours. A stale slot changes
nothing. -/
def remove (c : Chain κ ν) (slot : Nat) : Option (Entry κ ν) × Chain κ ν :=
  match c.get? slot with
  | none => (none, c)
  | some _ =>
    let detached := c.detach slot
    (detached.get? slot,
      { detached.fill slot none with vacant := slot :: c.vacant, size := c.size - 1 })

/-- Makes the entry in a slot the newest one and gives it the next stamp. A stale slot only uses up
the stamp. -/
def touch (c : Chain κ ν) (slot : Nat) : Chain κ ν :=
  if c.newest = some slot then
    { c.modify slot fun entry => { entry with stamp := c.clock } with clock := c.clock + 1 }
  else
    (c.detach slot).attach slot

/-- Gives the entry in a slot another value and footprint, and tells the old footprint. The order
stays. A stale slot changes nothing. -/
def replace (c : Chain κ ν) (slot : Nat) (value : ν) (footprint : Int) :
    Option Int × Chain κ ν :=
  ((c.get? slot).map (·.footprint), c.modify slot (·.replace value footprint))

/-- Removes all entries. The clock goes on. -/
def clear (c : Chain κ ν) : Chain κ ν :=
  { clock := c.clock }

/-! ## Slots after a change -/

@[simp]
theorem get?_empty (slot : Nat) : (empty : Chain κ ν).get? slot = none := by
  simp [empty, get?]

/-- Changing one slot leaves the others as they were. -/
theorem get?_modify (c : Chain κ ν) (slot other : Nat) (f : Entry κ ν → Entry κ ν) :
    (c.modify slot f).get? other =
      if slot = other then (c.get? other).map f else c.get? other := by
  simp only [get?, modify, Array.getElem?_modify]
  split
  · cases c.slots[other]? <;> rfl
  · rfl

/-- Filling a slot of the arena leaves the others as they were. -/
theorem get?_fill (c : Chain κ ν) {slot : Nat} (hslot : slot < c.slots.size) (other : Nat)
    (content : Option (Entry κ ν)) :
    (c.fill slot content).get? other = if slot = other then content else c.get? other := by
  simp only [get?, fill, Array.getElem?_setIfInBounds]
  split
  · rfl
  · rfl

end Chain

end BudgetCache
