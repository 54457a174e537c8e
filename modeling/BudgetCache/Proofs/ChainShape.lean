import BudgetCache.Proofs.ChainRuns

/-!
# The shape of a chain

What the links of a chain look like from the outside, without the list of cells that `Holds` speaks
of. Following the links from either end comes to an end by itself, visits every live slot once, and
the two directions are opposite to each other; the slots that are left over are vacant. `Visits`
follows links with no bound on the number of steps, so a cycle would leave nothing for it to say.
Every chain that the operations lead to from the empty one has this shape.
-/

namespace BudgetCache

namespace Chain

variable {κ ν : Type}

/-- Following `next` from a slot on, or from nowhere, visits these slots and ends after them. -/
inductive Visits (c : Chain κ ν) (next : Entry κ ν → Option Nat) :
    Option Nat → List (Nat × Entry κ ν) → Prop
  | done : Visits c next none []
  | step {slot : Nat} {entry : Entry κ ν} {cells : List (Nat × Entry κ ν)}
    (hentry : c.get? slot = some entry) (hrest : Visits c next (next entry) cells) :
    Visits c next (some slot) ((slot, entry) :: cells)

/-- What the links, the vacant slots, the count and the stamps of a chain have to do with one
another. -/
structure Shaped (c : Chain κ ν) : Prop where
  older : c.Visits (·.older) c.newest c.toList
  newer : c.Visits (·.newer) c.oldest c.toList.reverse
  /-- No slot is visited twice. -/
  once : (c.toList.map (·.1)).Nodup
  /-- The entries visited are those in the live slots. -/
  live : ∀ slot entry, (slot, entry) ∈ c.toList ↔ c.get? slot = some entry
  neighbours : ∀ xs a b ys, c.toList = xs ++ a :: b :: ys →
    a.2.older = some b.1 ∧ b.2.newer = some a.1
  front : ∀ cell ∈ c.toList.head?, c.newest = some cell.1 ∧ cell.2.newer = none
  back : ∀ cell ∈ c.toList.getLast?, c.oldest = some cell.1 ∧ cell.2.older = none
  size : c.size = ((List.range c.slots.size).filter fun slot => (c.get? slot).isSome).length
  newest_none : c.newest = none ↔ c.size = 0
  oldest_none : c.oldest = none ↔ c.size = 0
  descending : c.entries.Pairwise fun a b => b.stamp < a.stamp
  below_clock : ∀ entry ∈ c.entries, entry.stamp < c.clock
  /-- No slot is listed as vacant twice. -/
  vacant_once : c.vacant.Nodup
  /-- The slots listed as vacant are those of the arena that are not live. -/
  vacant : ∀ slot, slot ∈ c.vacant ↔ slot < c.slots.size ∧ c.get? slot = none

/-! ## Following links -/

theorem Visits.start {c : Chain κ ν} {next : Entry κ ν → Option Nat} {start : Option Nat}
    {cells : List (Nat × Entry κ ν)} (h : c.Visits next start cells) :
    start = cells.head?.map (·.1) := by
  cases h with
  | done => rfl
  | step hentry hrest => rfl

/-- After a part of the visit, the rest of it starts at the next of the last entry. -/
theorem Visits.split {c : Chain κ ν} {next : Entry κ ν → Option Nat} {start : Option Nat}
    {xs ys : List (Nat × Entry κ ν)} {cell : Nat × Entry κ ν}
    (h : c.Visits next start (xs ++ cell :: ys)) : c.Visits next (next cell.2) ys := by
  induction xs generalizing start with
  | nil =>
    cases h with
    | step hentry hrest => exact hrest
  | cons x xs ih =>
    cases h with
    | step hentry hrest => exact ih hrest

theorem Visits.next_eq {c : Chain κ ν} {next : Entry κ ν → Option Nat} {start : Option Nat}
    {xs ys : List (Nat × Entry κ ν)} {cell : Nat × Entry κ ν}
    (h : c.Visits next start (xs ++ cell :: ys)) : next cell.2 = ys.head?.map (·.1) :=
  h.split.start

/-- Linked slots are visited in their order by the older links. -/
theorem visits_older {c : Chain κ ν} {cells : List (Nat × Entry κ ν)} {newer : Option Nat}
    (hlinked : c.Linked newer (cells.map (·.1)) none)
    (hget : ∀ cell ∈ cells, c.get? cell.1 = some cell.2) :
    c.Visits (·.older) (cells.map (·.1)).head? cells := by
  induction cells generalizing newer with
  | nil => exact .done
  | cons cell cells ih =>
    obtain ⟨entry, hentry, -, holder⟩ := get?_of_links? hlinked.1
    have hcell : c.get? cell.1 = some cell.2 := hget cell List.mem_cons_self
    have hsame : entry = cell.2 := Option.some.inj (hentry.symm.trans hcell)
    rw [hsame, Option.or_none] at holder
    have hrest := ih hlinked.2 fun other hother => hget other (List.mem_cons_of_mem cell hother)
    exact .step hcell (holder ▸ hrest)

/-- Linked slots are visited in the opposite order by the newer links. -/
theorem visits_newer {c : Chain κ ν} {cells : List (Nat × Entry κ ν)} {older : Option Nat}
    (hlinked : c.Linked none (cells.map (·.1)) older)
    (hget : ∀ cell ∈ cells, c.get? cell.1 = some cell.2) :
    c.Visits (·.newer) (cells.map (·.1)).getLast? cells.reverse := by
  -- the list is taken apart at its end, where the walk along the newer links begins
  induction cells using List.reverseRecOn generalizing older with
  | nil => exact .done
  | append_singleton cells cell ih =>
    rw [List.map_append] at hlinked
    obtain ⟨hinit, hlast, -⟩ := linked_append.1 hlinked
    obtain ⟨entry, hentry, hnewer, -⟩ := get?_of_links? hlast
    have hcell : c.get? cell.1 = some cell.2 := hget cell (by simp)
    have hsame : entry = cell.2 := Option.some.inj (hentry.symm.trans hcell)
    rw [hsame, Option.or_none] at hnewer
    have hrest := ih hinit fun other hother => hget other (List.mem_append_left [cell] hother)
    rw [List.map_append, List.map_singleton, List.getLast?_concat, List.reverse_concat]
    exact .step hcell (hnewer ▸ hrest)

/-! ## The shape that a chain keeps -/

/-- As many entries are counted as there are live slots in the arena. -/
theorem Holds.size_eq_live {c : Chain κ ν} {cells : List (Nat × Item κ ν)} (h : c.Holds cells) :
    c.size = ((List.range c.slots.size).filter fun slot => (c.get? slot).isSome).length := by
  -- both lists have the live slots, each once
  have hperm : (cells.map (·.1)).Perm
      ((List.range c.slots.size).filter fun slot => (c.get? slot).isSome) := by
    refine (List.perm_ext_iff_of_nodup h.ordered.nodup (List.nodup_range.filter _)).2 ?_
    intro slot
    have hlive := h.item?_isSome_iff slot
    rw [item?, Option.isSome_map] at hlive
    rw [List.mem_filter, List.mem_range, hlive]
    constructor
    · intro hslot
      obtain ⟨cell, hcell, rfl⟩ := List.mem_map.1 hslot
      exact ⟨lt_size_of_item? (h.item cell hcell), hslot⟩
    · rintro ⟨-, hslot⟩
      exact hslot
  rw [← hperm.length_eq, List.length_map, h.size]

theorem Holds.shaped {c : Chain κ ν} {cells : List (Nat × Item κ ν)} (h : c.Holds cells) :
    c.Shaped := by
  have hget : ∀ cell ∈ c.toList, c.get? cell.1 = some cell.2 := fun cell hcell =>
    get?_of_mem_walk hcell
  have hlinked : c.Linked none (c.toList.map (·.1)) none := h.map_toList ▸ h.ordered.linked
  have hnewest : c.newest = (c.toList.map (·.1)).head? := h.map_toList ▸ h.ordered.newest
  have holdest : c.oldest = (c.toList.map (·.1)).getLast? := h.map_toList ▸ h.ordered.oldest
  have hforwards : c.Visits (·.older) c.newest c.toList := hnewest ▸ visits_older hlinked hget
  have hbackwards : c.Visits (·.newer) c.oldest c.toList.reverse :=
    holdest ▸ visits_newer hlinked hget
  have hempty : c.toList = [] ↔ c.size = 0 := by
    rw [← h.length_toList, List.length_eq_zero_iff]
  have hentries : c.entries.map Entry.item = cells.map (·.2) := h.entries
  constructor
  case older => exact hforwards
  case newer => exact hbackwards
  case once => exact h.map_toList ▸ h.ordered.nodup
  case live => exact h.mem_toList
  case neighbours =>
    intro xs a b ys hcells
    rw [hcells] at hforwards hbackwards
    have hreverse : (xs ++ a :: b :: ys).reverse = ys.reverse ++ b :: a :: xs.reverse := by simp
    rw [hreverse] at hbackwards
    exact ⟨hforwards.next_eq, hbackwards.next_eq⟩
  case front =>
    intro cell hcell
    obtain ⟨cells', hcells⟩ := List.head?_eq_some_iff.1 hcell
    rw [hcells, List.reverse_cons] at hbackwards
    rw [hcells] at hnewest
    exact ⟨hnewest, hbackwards.next_eq⟩
  case back =>
    intro cell hcell
    obtain ⟨cells', hcells⟩ := List.getLast?_eq_some_iff.1 hcell
    rw [hcells] at hforwards
    rw [hcells, List.map_append, List.map_singleton, List.getLast?_concat] at holdest
    exact ⟨holdest, hforwards.next_eq⟩
  case size => exact h.size_eq_live
  case newest_none => rw [hnewest, List.head?_eq_none_iff, List.map_eq_nil_iff, hempty]
  case oldest_none => rw [holdest, List.getLast?_eq_none_iff, List.map_eq_nil_iff, hempty]
  case descending =>
    have hdescending : (c.entries.map Entry.item).Pairwise fun a b => b.stamp < a.stamp := by
      rw [hentries]
      exact List.pairwise_map.2 h.descending
    exact List.pairwise_map.1 hdescending
  case below_clock =>
    intro entry hentry
    have hitem : entry.item ∈ cells.map (·.2) := hentries ▸ List.mem_map_of_mem hentry
    obtain ⟨cell, hcell, heq⟩ := List.mem_map.1 hitem
    have hbelow := h.below_clock cell hcell
    rw [heq] at hbelow
    exact hbelow
  case vacant_once => exact h.vacant_nodup
  case vacant =>
    intro slot
    rw [h.mem_vacant, item?_eq_none]

/-- Whatever operations a chain has gone through since it was empty, with whatever slot numbers and
inserted entries, its links run through the live slots in one order and back, the stamps decrease
along them, and the other slots of the arena are vacant. -/
theorem actAll_empty_shaped (actions : List (Action κ ν)) :
    ((empty : Chain κ ν).actAll actions).2.Shaped := by
  obtain ⟨cells, hcells, -⟩ := holds_empty.actAll actions
  exact hcells.shaped

end Chain

end BudgetCache
