import BudgetCache.Chain.Basic

/-!
# The order of a chain

Following the links from either end visits the entries in order. A walk visits at most as many
entries as there are slots, which is enough: no slot occurs twice in the order. The list of slots
and entries from the newest to the oldest is what a chain stands for.
-/

namespace BudgetCache

namespace Chain

variable {κ ν : Type}

/-- Visits at most `fuel` entries, from a slot on and each time to the neighbour that `next` gives.
The walk ends at a stale slot. -/
def walk (c : Chain κ ν) (next : Entry κ ν → Option Nat) : Nat → Option Nat → List (Nat × Entry κ ν)
  | 0, _ => []
  | _ + 1, none => []
  | fuel + 1, some slot =>
    match c.get? slot with
    | none => []
    | some entry => (slot, entry) :: c.walk next fuel (next entry)

/-- The slots and entries from the newest to the oldest. -/
def toList (c : Chain κ ν) : List (Nat × Entry κ ν) :=
  c.walk (·.older) c.slots.size c.newest

/-- The slots and entries from the oldest to the newest, found by the links in the other
direction. -/
def fromOldest (c : Chain κ ν) : List (Nat × Entry κ ν) :=
  c.walk (·.newer) c.slots.size c.oldest

/-- The entries from the newest to the oldest. -/
def entries (c : Chain κ ν) : List (Entry κ ν) :=
  c.toList.map (·.2)

@[simp]
theorem walk_none (c : Chain κ ν) (next : Entry κ ν → Option Nat) (fuel : Nat) :
    c.walk next fuel none = [] := by
  cases fuel <;> rfl

/-- Every entry of a walk is the one in its slot. -/
theorem get?_of_mem_walk {c : Chain κ ν} {next : Entry κ ν → Option Nat} {fuel : Nat}
    {start : Option Nat} {slot : Nat} {entry : Entry κ ν}
    (h : (slot, entry) ∈ c.walk next fuel start) : c.get? slot = some entry := by
  induction fuel generalizing start with
  | zero => simp [walk] at h
  | succ fuel ih =>
    cases start with
    | none => simp at h
    | some first =>
      simp only [walk] at h
      split at h
      · simp at h
      · next found hfound =>
        rcases List.mem_cons.1 h with heq | hmem
        · cases heq
          exact hfound
        · exact ih hmem

end Chain

end BudgetCache
