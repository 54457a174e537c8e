import BudgetCache.Proofs.ChainLinks
import Mathlib.Data.List.Induction
import Mathlib.Data.List.Perm.Subperm

/-!
# What a chain holds

`Holds` ties a chain to the list of its cells, each a slot with the item in it, from the newest to
the oldest. It is the invariant of a chain: the links run through these slots in this order and
back, every other slot of the arena is vacant and listed once for reuse, and the stamps decrease and
lie below the clock. Each operation is then described by what it does to the list, and the two walks
along the links read the list forwards and backwards.
-/

namespace BudgetCache

namespace Chain

variable {κ ν : Type}

/-- The chain consists of these cells, from the newest to the oldest. -/
structure Holds (c : Chain κ ν) (cells : List (Nat × Item κ ν)) : Prop where
  /-- The slots are linked in the order of the list. -/
  ordered : c.Ordered (cells.map (·.1))
  /-- Each slot holds its item. -/
  item : ∀ cell ∈ cells, c.item? cell.1 = some cell.2
  /-- No other slot holds anything. -/
  stale : ∀ slot, slot ∉ cells.map (·.1) → c.item? slot = none
  /-- The entries are counted. -/
  size : c.size = cells.length
  /-- No slot is listed as vacant twice. -/
  vacant_nodup : c.vacant.Nodup
  /-- The slots listed as vacant are those of the arena that hold nothing. -/
  mem_vacant : ∀ slot, slot ∈ c.vacant ↔ slot < c.slots.size ∧ c.item? slot = none
  /-- The stamps decrease. -/
  descending : cells.Pairwise fun a b => b.2.stamp < a.2.stamp
  /-- The clock has passed every stamp. -/
  below_clock : ∀ cell ∈ cells, cell.2.stamp < c.clock

theorem Holds.item?_isSome_iff {c : Chain κ ν} {cells : List (Nat × Item κ ν)} (h : c.Holds cells)
    (slot : Nat) : (c.item? slot).isSome ↔ slot ∈ cells.map (·.1) := by
  constructor
  · intro hsome
    by_contra hslot
    simp [h.stale slot hslot] at hsome
  · intro hslot
    obtain ⟨cell, hcell, rfl⟩ := List.mem_map.1 hslot
    simp [h.item cell hcell]

theorem Holds.notMem_of_stale {c : Chain κ ν} {cells : List (Nat × Item κ ν)} (h : c.Holds cells)
    {slot : Nat} (hslot : c.get? slot = none) : slot ∉ cells.map (·.1) := by
  rw [← h.item?_isSome_iff, item?_eq_none.2 hslot]
  simp

theorem Holds.get?_middle {c : Chain κ ν} {xs ys : List (Nat × Item κ ν)} {slot : Nat}
    {item : Item κ ν} (h : c.Holds (xs ++ (slot, item) :: ys)) :
    ∃ entry, c.get? slot = some entry ∧ entry.item = item :=
  Option.map_eq_some_iff.1 (h.item (slot, item) (by simp))

/-- The slot of a cell is in no other cell. -/
theorem Holds.notMem_middle {c : Chain κ ν} {xs ys : List (Nat × Item κ ν)} {slot : Nat}
    {item : Item κ ν} (h : c.Holds (xs ++ (slot, item) :: ys)) :
    slot ∉ (xs ++ ys).map (·.1) := by
  have hnodup := h.ordered.nodup
  rw [List.map_append, List.map_cons] at hnodup
  simpa using (List.nodup_cons.1 (List.nodup_middle.1 hnodup)).1

theorem Holds.length_le {c : Chain κ ν} {cells : List (Nat × Item κ ν)} (h : c.Holds cells) :
    cells.length ≤ c.slots.size := by
  have hsub : cells.map (·.1) ⊆ List.range c.slots.size := by
    intro slot hslot
    obtain ⟨cell, hcell, rfl⟩ := List.mem_map.1 hslot
    exact List.mem_range.2 (lt_size_of_item? (h.item cell hcell))
  simpa using (List.subperm_of_subset h.ordered.nodup hsub).length_le

/-! ## Reading the list off the links -/

/-- Following the older links visits linked slots in order and stops after the last. -/
theorem walk_older {c : Chain κ ν} {cells : List (Nat × Item κ ν)} {newer : Option Nat}
    (hlinked : c.Linked newer (cells.map (·.1)) none)
    (hitem : ∀ cell ∈ cells, c.item? cell.1 = some cell.2) {fuel : Nat}
    (hfuel : cells.length ≤ fuel) :
    (c.walk (·.older) fuel (cells.map (·.1)).head?).map (fun cell => (cell.1, cell.2.item)) =
      cells := by
  induction cells generalizing newer fuel with
  | nil => simp
  | cons cell cells ih =>
    obtain ⟨fuel, rfl⟩ : ∃ n, fuel = n + 1 := ⟨fuel - 1, by simp at hfuel; omega⟩
    obtain ⟨entry, hentry, -, holder⟩ := get?_of_links? hlinked.1
    have hcell : entry.item = cell.2 := by
      simpa [item?, hentry] using hitem cell List.mem_cons_self
    have hrest := ih hlinked.2 (fun other hother => hitem other (List.mem_cons_of_mem cell hother))
      (Nat.le_of_succ_le_succ hfuel)
    rw [Option.or_none] at holder
    simp only [List.map_cons, List.head?_cons, walk, hentry, holder, hrest, hcell]

/-- Following the newer links visits linked slots in the opposite order. -/
theorem walk_newer {c : Chain κ ν} {cells : List (Nat × Item κ ν)} {older : Option Nat}
    (hlinked : c.Linked none (cells.map (·.1)) older)
    (hitem : ∀ cell ∈ cells, c.item? cell.1 = some cell.2) {fuel : Nat}
    (hfuel : cells.length ≤ fuel) :
    (c.walk (·.newer) fuel (cells.map (·.1)).getLast?).map (fun cell => (cell.1, cell.2.item)) =
      cells.reverse := by
  induction cells using List.reverseRecOn generalizing older fuel with
  | nil => simp
  | append_singleton cells cell ih =>
    obtain ⟨fuel, rfl⟩ : ∃ n, fuel = n + 1 := ⟨fuel - 1, by simp at hfuel; omega⟩
    rw [List.map_append] at hlinked
    obtain ⟨hinit, hlast, -⟩ := linked_append.1 hlinked
    obtain ⟨entry, hentry, hnewer, -⟩ := get?_of_links? hlast
    have hcell : entry.item = cell.2 := by
      simpa [item?, hentry] using hitem cell (by simp)
    have hrest := ih hinit (fun other hother => hitem other (List.mem_append_left [cell] hother))
      (by simpa using hfuel)
    rw [Option.or_none] at hnewer
    rw [List.getLast?_map] at hnewer hrest
    simp [walk, hentry, hnewer, hrest, hcell]

/-- The walk from the newest entry reads the list. More steps than there are slots find no more. -/
theorem Holds.walk_newest {c : Chain κ ν} {cells : List (Nat × Item κ ν)} (h : c.Holds cells)
    {fuel : Nat} (hfuel : c.slots.size ≤ fuel) :
    (c.walk (·.older) fuel c.newest).map (fun cell => (cell.1, cell.2.item)) = cells := by
  rw [h.ordered.newest]
  exact walk_older h.ordered.linked h.item (Nat.le_trans h.length_le hfuel)

theorem Holds.walk_oldest {c : Chain κ ν} {cells : List (Nat × Item κ ν)} (h : c.Holds cells)
    {fuel : Nat} (hfuel : c.slots.size ≤ fuel) :
    (c.walk (·.newer) fuel c.oldest).map (fun cell => (cell.1, cell.2.item)) = cells.reverse := by
  rw [h.ordered.oldest]
  exact walk_newer h.ordered.linked h.item (Nat.le_trans h.length_le hfuel)

theorem Holds.toList {c : Chain κ ν} {cells : List (Nat × Item κ ν)} (h : c.Holds cells) :
    c.toList.map (fun cell => (cell.1, cell.2.item)) = cells :=
  h.walk_newest (Nat.le_refl _)

theorem Holds.map_toList {c : Chain κ ν} {cells : List (Nat × Item κ ν)} (h : c.Holds cells) :
    c.toList.map (·.1) = cells.map (·.1) := by
  rw [← h.toList, List.map_map]
  rfl

theorem Holds.length_toList {c : Chain κ ν} {cells : List (Nat × Item κ ν)} (h : c.Holds cells) :
    c.toList.length = c.size := by
  rw [h.size, ← h.toList, List.length_map]

theorem Holds.fromOldest {c : Chain κ ν} {cells : List (Nat × Item κ ν)} (h : c.Holds cells) :
    c.fromOldest.map (fun cell => (cell.1, cell.2.item)) = cells.reverse :=
  h.walk_oldest (Nat.le_refl _)

/-- Lists of slots with the entries in them are equal if the slots are. -/
theorem eq_of_slots_eq {c : Chain κ ν} {xs ys : List (Nat × Entry κ ν)}
    (hxs : ∀ cell ∈ xs, c.get? cell.1 = some cell.2)
    (hys : ∀ cell ∈ ys, c.get? cell.1 = some cell.2) (h : xs.map (·.1) = ys.map (·.1)) :
    xs = ys := by
  induction xs generalizing ys with
  | nil => exact (List.map_eq_nil_iff.1 h.symm).symm
  | cons x xs ih =>
    cases ys with
    | nil => simp at h
    | cons y ys =>
      obtain ⟨hslot, hrest⟩ := List.cons.inj h
      have hx := hxs x List.mem_cons_self
      have hy := hys y List.mem_cons_self
      have hget : c.get? x.1 = c.get? y.1 := congrArg c.get? hslot
      have hentry : x.2 = y.2 := Option.some.inj (hx.symm.trans (hget.trans hy))
      rw [ih (fun cell hcell => hxs cell (List.mem_cons_of_mem x hcell))
        (fun cell hcell => hys cell (List.mem_cons_of_mem y hcell)) hrest, Prod.ext hslot hentry]

theorem Holds.walk_newest_eq {c : Chain κ ν} {cells : List (Nat × Item κ ν)} (h : c.Holds cells)
    {fuel : Nat} (hfuel : c.slots.size ≤ fuel) :
    c.walk (·.older) fuel c.newest = c.toList := by
  refine eq_of_slots_eq (fun _ => get?_of_mem_walk) (fun _ => get?_of_mem_walk) ?_
  have heq := congrArg (List.map (·.1)) ((h.walk_newest hfuel).trans h.toList.symm)
  rwa [List.map_map, List.map_map] at heq

/-- The walk from the oldest entry visits the same entries in the opposite order, and ends by
itself. -/
theorem Holds.walk_oldest_eq {c : Chain κ ν} {cells : List (Nat × Item κ ν)} (h : c.Holds cells)
    {fuel : Nat} (hfuel : c.slots.size ≤ fuel) :
    c.walk (·.newer) fuel c.oldest = c.toList.reverse := by
  refine eq_of_slots_eq (fun _ => get?_of_mem_walk)
    (fun _ hcell => get?_of_mem_walk (List.mem_reverse.1 hcell)) ?_
  have hreverse := congrArg List.reverse h.toList
  rw [← List.map_reverse] at hreverse
  have heq := congrArg (List.map (·.1)) ((h.walk_oldest hfuel).trans hreverse.symm)
  rwa [List.map_map, List.map_map] at heq

/-- Every entry of the arena is in the order. -/
theorem Holds.mem_toList {c : Chain κ ν} {cells : List (Nat × Item κ ν)} (h : c.Holds cells)
    (slot : Nat) (entry : Entry κ ν) : (slot, entry) ∈ c.toList ↔ c.get? slot = some entry := by
  refine ⟨get?_of_mem_walk, fun hentry => ?_⟩
  have hslot : slot ∈ cells.map (·.1) := by
    rw [← h.item?_isSome_iff, item?, hentry]
    rfl
  rw [← h.map_toList] at hslot
  obtain ⟨⟨slot', entry'⟩, hcell, rfl⟩ := List.mem_map.1 hslot
  have hentry' : c.get? slot' = some entry' := get?_of_mem_walk hcell
  rw [← Option.some.inj (hentry'.symm.trans hentry)]
  exact hcell

theorem Holds.entries {c : Chain κ ν} {cells : List (Nat × Item κ ν)} (h : c.Holds cells) :
    c.entries.map Entry.item = cells.map (·.2) := by
  rw [← h.toList, Chain.entries]
  simp

/-- The entries in the slots of the cells are the items of the cells. -/
theorem Holds.filterMap_get? {c : Chain κ ν} {cells : List (Nat × Item κ ν)} (h : c.Holds cells) :
    (cells.filterMap fun cell => c.get? cell.1).map Entry.item = cells.map (·.2) := by
  rw [List.map_filterMap]
  refine List.filterMap_eq_map_iff_forall_eq_some.2 ?_
  exact h.item

theorem Holds.front? {c : Chain κ ν} {cells : List (Nat × Item κ ν)} (h : c.Holds cells) :
    c.front?.map Entry.item = cells.head?.map (·.2) := by
  cases cells with
  | nil => simp [Chain.front?, h.ordered.newest]
  | cons cell cells =>
    have hcell := h.item cell List.mem_cons_self
    simpa [Chain.front?, h.ordered.newest, item?] using hcell

theorem Holds.back? {c : Chain κ ν} {cells : List (Nat × Item κ ν)} (h : c.Holds cells) :
    c.back?.map Entry.item = cells.getLast?.map (·.2) := by
  rcases List.eq_nil_or_concat' cells with rfl | ⟨cells, cell, rfl⟩
  · simp [Chain.back?, h.ordered.oldest]
  · have hcell := h.item cell (by simp)
    simpa [Chain.back?, h.ordered.oldest, item?] using hcell

/-! ## What each operation does to the list -/

theorem holds_empty : (empty : Chain κ ν).Holds [] where
  ordered := ⟨List.nodup_nil, trivial, rfl, rfl⟩
  item := by simp
  stale := by simp [item?]
  size := rfl
  vacant_nodup := List.nodup_nil
  mem_vacant := by simp [empty]
  descending := List.Pairwise.nil
  below_clock := by simp

/-- Clearing empties the list, whatever the chain was. -/
theorem holds_clear (c : Chain κ ν) : c.clear.Holds [] where
  ordered := ⟨List.nodup_nil, trivial, rfl, rfl⟩
  item := by simp
  stale := by simp [clear, item?, get?]
  size := rfl
  vacant_nodup := List.nodup_nil
  mem_vacant := by simp [clear]
  descending := List.Pairwise.nil
  below_clock := by simp

/-- The chain consists of these cells, and one more slot holds an item but has been cut out of the
order, or has not been put into it yet. -/
structure HoldsCut (c : Chain κ ν) (slot : Nat) (item : Item κ ν) (cells : List (Nat × Item κ ν)) :
    Prop where
  ordered : c.Ordered (cells.map (·.1))
  cut : slot ∉ cells.map (·.1)
  item : ∀ cell ∈ (slot, item) :: cells, c.item? cell.1 = some cell.2
  stale : ∀ other ≠ slot, other ∉ cells.map (·.1) → c.item? other = none
  size : c.size = cells.length + 1
  vacant_nodup : c.vacant.Nodup
  mem_vacant : ∀ other, other ∈ c.vacant ↔ other < c.slots.size ∧ c.item? other = none
  descending : cells.Pairwise fun a b => b.2.stamp < a.2.stamp
  below_clock : ∀ cell ∈ cells, cell.2.stamp < c.clock

theorem Holds.detach {c : Chain κ ν} {xs ys : List (Nat × Item κ ν)} {slot : Nat}
    {item : Item κ ν} (h : c.Holds (xs ++ (slot, item) :: ys)) :
    (c.detach slot).HoldsCut slot item (xs ++ ys) := by
  obtain ⟨hslots, hvacant, hsize, hclock⟩ := sameArena_detach c slot
  have hordered : c.Ordered (xs.map (·.1) ++ slot :: ys.map (·.1)) := by simpa using h.ordered
  have hmem : ∀ cell ∈ (slot, item) :: (xs ++ ys), cell ∈ xs ++ (slot, item) :: ys := by
    intro cell hcell
    simp only [List.mem_cons, List.mem_append] at hcell ⊢
    tauto
  constructor
  case ordered => simpa using hordered.detach
  case cut => exact h.notMem_middle
  case item =>
    intro cell hcell
    rw [item?_detach, h.item cell (hmem cell hcell)]
  case stale =>
    intro other hne hnotMem
    rw [item?_detach]
    refine h.stale other ?_
    simp only [List.map_append, List.map_cons, List.mem_append, List.mem_cons] at hnotMem ⊢
    tauto
  case size =>
    rw [hsize, h.size]
    simp only [List.length_append, List.length_cons]
    omega
  case vacant_nodup => rw [hvacant]; exact h.vacant_nodup
  case mem_vacant =>
    intro other
    rw [hvacant, hslots, item?_detach, h.mem_vacant]
  case descending =>
    exact h.descending.sublist (List.Sublist.append_left (List.sublist_cons_self _ ys) xs)
  case below_clock =>
    intro cell hcell
    rw [hclock]
    exact h.below_clock cell (hmem cell (List.mem_cons_of_mem _ hcell))

/-- Attaching puts the cell that is cut out in front and stamps it. -/
theorem HoldsCut.attach {c : Chain κ ν} {cells : List (Nat × Item κ ν)} {slot : Nat}
    {item : Item κ ν} (h : c.HoldsCut slot item cells) :
    (c.attach slot).Holds ((slot, { item with stamp := c.clock }) :: cells) := by
  obtain ⟨hslots, hvacant, hsize, hclock⟩ := sameArena_attach c slot
  have hslot : c.item? slot = some item := h.item (slot, item) List.mem_cons_self
  obtain ⟨entry, hentry, -⟩ := Option.map_eq_some_iff.1 hslot
  have hother : ∀ other ≠ slot, (c.attach slot).item? other = c.item? other := by
    intro other hne
    rw [item?_attach hslot, if_neg (Ne.symm hne)]
  constructor
  case ordered => exact h.ordered.attach h.cut hentry
  case item =>
    intro cell hcell
    rcases List.mem_cons.1 hcell with rfl | hmem
    · rw [item?_attach hslot, if_pos rfl]
    · have hne : cell.1 ≠ slot := fun heq => h.cut (heq ▸ List.mem_map_of_mem hmem)
      rw [hother _ hne, h.item cell (List.mem_cons_of_mem _ hmem)]
  case stale =>
    intro other hnotMem
    rw [List.map_cons, List.mem_cons, not_or] at hnotMem
    rw [hother other hnotMem.1, h.stale other hnotMem.1 hnotMem.2]
  case size => rw [hsize]; exact h.size
  case vacant_nodup => rw [hvacant]; exact h.vacant_nodup
  case mem_vacant =>
    intro other
    rw [hvacant, hslots, h.mem_vacant other, item?_attach hslot]
    split
    · next heq => simp [← heq, hslot]
    · rfl
  case descending => exact List.pairwise_cons.2 ⟨h.below_clock, h.descending⟩
  case below_clock =>
    intro cell hcell
    rw [hclock]
    rcases List.mem_cons.1 hcell with rfl | hmem
    · exact Nat.lt_succ_self c.clock
    · exact Nat.lt_succ_of_lt (h.below_clock cell hmem)

/-- Filling a stale slot without putting it into the order. The slot was vacant or is new to the
arena; `d` is the chain afterwards. -/
theorem Holds.place {c d : Chain κ ν} {cells : List (Nat × Item κ ν)} (h : c.Holds cells)
    {slot : Nat} {entry : Entry κ ν} (hstale : c.get? slot = none)
    (hget : ∀ other, d.get? other = if slot = other then some entry else c.get? other)
    (hroom : ∀ other ≠ slot, other < d.slots.size ↔ other < c.slots.size)
    (hnodup : d.vacant.Nodup)
    (hvacant : ∀ other, other ∈ d.vacant ↔ other ≠ slot ∧ other ∈ c.vacant)
    (hnewest : d.newest = c.newest) (holdest : d.oldest = c.oldest) (hsize : d.size = c.size + 1)
    (hclock : d.clock = c.clock) : d.HoldsCut slot entry.item cells := by
  have hcut := h.notMem_of_stale hstale
  have hslot : d.get? slot = some entry := (hget slot).trans (if_pos rfl)
  have hother : ∀ other ≠ slot, d.get? other = c.get? other := fun other hne =>
    (hget other).trans (if_neg (Ne.symm hne))
  have hkept : ∀ other ∈ cells.map (·.1), d.get? other = c.get? other := by
    intro other hmem
    refine hother other ?_
    rintro rfl
    exact hcut hmem
  constructor
  case ordered =>
    refine ⟨h.ordered.nodup, ?_, hnewest.trans h.ordered.newest, holdest.trans h.ordered.oldest⟩
    refine h.ordered.linked.congr fun other hmem => ?_
    rw [links?, links?, hkept other hmem]
  case cut => exact hcut
  case item =>
    intro cell hcell
    rcases List.mem_cons.1 hcell with rfl | hmem
    · rw [item?, hslot, Option.map_some]
    · rw [item?, hkept _ (List.mem_map_of_mem hmem)]
      exact h.item cell hmem
  case stale =>
    intro other hne hnotMem
    rw [item?, hother other hne]
    exact h.stale other hnotMem
  case size => rw [hsize, h.size]
  case vacant_nodup => exact hnodup
  case mem_vacant =>
    intro other
    rw [hvacant, h.mem_vacant, item?_eq_none, item?_eq_none]
    by_cases hne : other = slot
    · simp [hne, hslot]
    · simp [hne, hroom other hne, hother other hne]
  case descending => exact h.descending
  case below_clock =>
    intro cell hcell
    rw [hclock]
    exact h.below_clock cell hcell

/-- Inserting puts a cell in front. Its slot was stale before, and its stamp is the next one. -/
theorem Holds.insert {c : Chain κ ν} {cells : List (Nat × Item κ ν)} (h : c.Holds cells)
    (entry : Entry κ ν) :
    (c.insert entry).2.Holds
      (((c.insert entry).1, { entry.item with stamp := c.clock }) :: cells) := by
  cases hvacant : c.vacant with
  | cons slot vacant =>
    have hnodup := List.nodup_cons.1 (hvacant ▸ h.vacant_nodup)
    obtain ⟨hlt, hstale⟩ := (h.mem_vacant slot).1 (by simp [hvacant])
    set placed : Chain κ ν := { c.fill slot (some entry) with vacant, size := c.size + 1 }
      with hplaced
    have hcut : placed.HoldsCut slot entry.item cells := by
      refine h.place (item?_eq_none.1 hstale) (fun other => get?_fill c hlt other (some entry)) ?_
        hnodup.2 ?_ rfl rfl rfl rfl
      · intro other _
        simp [hplaced, fill]
      · intro other
        rw [hvacant, List.mem_cons]
        constructor
        · intro hmem
          exact ⟨fun heq => hnodup.1 (heq ▸ hmem), Or.inr hmem⟩
        · rintro ⟨hne, heq | hmem⟩
          · exact absurd heq hne
          · exact hmem
    simp only [Chain.insert, hvacant]
    exact hcut.attach
  | nil =>
    set placed : Chain κ ν := { c with slots := c.slots.push (some entry), size := c.size + 1 }
      with hplaced
    have hcut : placed.HoldsCut c.slots.size entry.item cells := by
      refine h.place (by simp [get?]) (fun other => ?_) (fun other hne => ?_) h.vacant_nodup ?_ rfl
        rfl rfl rfl
      · simp only [hplaced, get?, Array.getElem?_push]
        by_cases heq : other = c.slots.size
        · simp [heq]
        · simp [heq, Ne.symm heq]
      · simp only [hplaced, Array.size_push]
        omega
      · simp [hplaced, hvacant]
    simp only [Chain.insert, hvacant]
    rw [hplaced, hvacant] at hcut
    exact hcut.attach

/-- Vacating the slot that is cut out leaves the cells in the order. -/
theorem HoldsCut.vacate {c : Chain κ ν} {cells : List (Nat × Item κ ν)} {slot : Nat}
    {item : Item κ ν} (h : c.HoldsCut slot item cells) :
    ({ c.fill slot none with vacant := slot :: c.vacant, size := c.size - 1 } : Chain κ ν).Holds
      cells := by
  have hslot : c.item? slot = some item := h.item (slot, item) List.mem_cons_self
  have hlt := lt_size_of_item? hslot
  set vacated : Chain κ ν :=
    { c.fill slot none with vacant := slot :: c.vacant, size := c.size - 1 } with hvacated
  have hget : ∀ other, vacated.get? other = if slot = other then none else c.get? other :=
    fun other => get?_fill c hlt other none
  have hother : ∀ other ≠ slot, vacated.get? other = c.get? other := fun other hne =>
    (hget other).trans (if_neg (Ne.symm hne))
  have hkept : ∀ other ∈ cells.map (·.1), vacated.get? other = c.get? other := by
    intro other hmem
    refine hother other ?_
    rintro rfl
    exact h.cut hmem
  constructor
  case ordered =>
    refine ⟨h.ordered.nodup, ?_, h.ordered.newest, h.ordered.oldest⟩
    refine h.ordered.linked.congr fun other hmem => ?_
    rw [links?, links?, hkept other hmem]
  case item =>
    intro cell hcell
    rw [item?, hkept _ (List.mem_map_of_mem hcell)]
    exact h.item cell (List.mem_cons_of_mem _ hcell)
  case stale =>
    intro other hnotMem
    rw [item?, hget]
    split
    · rfl
    · next hne => exact h.stale other (Ne.symm hne) hnotMem
  case size => simp [hvacated, h.size]
  case vacant_nodup =>
    refine List.nodup_cons.2 ⟨fun hmem => ?_, h.vacant_nodup⟩
    simp [((h.mem_vacant slot).1 hmem).2] at hslot
  case mem_vacant =>
    intro other
    have hmem : other ∈ vacated.vacant ↔ other = slot ∨ other ∈ c.vacant := List.mem_cons
    have hsize : vacated.slots.size = c.slots.size := by simp [hvacated, fill]
    rw [hmem, hsize, h.mem_vacant, item?_eq_none, item?_eq_none, hget]
    by_cases heq : slot = other
    · simp [← heq, hlt]
    · simp [heq, Ne.symm heq]
  case descending => exact h.descending
  case below_clock => exact h.below_clock

/-- Removing takes a cell out of the list and tells its item. The entry has lost its links. -/
theorem Holds.remove {c : Chain κ ν} {xs ys : List (Nat × Item κ ν)} {slot : Nat}
    {item : Item κ ν} (h : c.Holds (xs ++ (slot, item) :: ys)) :
    (c.remove slot).2.Holds (xs ++ ys) ∧ (c.remove slot).2.clock = c.clock ∧
      ∃ entry, (c.remove slot).1 = some entry ∧ entry.item = item ∧ entry.links = (none, none) := by
  have hcut := h.detach
  obtain ⟨-, hvacant, hsize, hclock⟩ := sameArena_detach c slot
  have hordered : c.Ordered (xs.map (·.1) ++ slot :: ys.map (·.1)) := by simpa using h.ordered
  obtain ⟨entry, hentry, -⟩ := h.get?_middle
  obtain ⟨entry', hentry', hlinks⟩ := Option.map_eq_some_iff.1 hordered.links?_detach
  have hitem' : entry'.item = item := by
    simpa [item?, hentry'] using hcut.item (slot, item) List.mem_cons_self
  have hremove : c.remove slot = ((c.detach slot).get? slot, { (c.detach slot).fill slot none with
      vacant := slot :: (c.detach slot).vacant, size := (c.detach slot).size - 1 }) := by
    rw [hvacant, hsize]
    simp only [Chain.remove, hentry]
  rw [hremove]
  exact ⟨hcut.vacate, hclock, entry', hentry', hitem', hlinks⟩

theorem remove_of_stale {c : Chain κ ν} {slot : Nat} (h : c.get? slot = none) :
    c.remove slot = (none, c) := by
  simp [remove, h]

@[simp]
theorem clock_insert (c : Chain κ ν) (entry : Entry κ ν) :
    (c.insert entry).2.clock = c.clock + 1 := by
  unfold insert
  split
  · exact (sameArena_attach _ _).clock
  · exact (sameArena_attach _ _).clock

/-- Every touch uses up one stamp, that of a stale slot too. -/
@[simp]
theorem clock_touch (c : Chain κ ν) (slot : Nat) : (c.touch slot).clock = c.clock + 1 := by
  unfold touch
  split
  · rfl
  · rw [(sameArena_attach _ _).clock]
    simp [(sameArena_detach c slot).clock]

/-- Changing the item in a slot, but not its links, changes one cell of the list. The clock may be
put forward at the same time. -/
theorem Holds.modify {c : Chain κ ν} {xs ys : List (Nat × Item κ ν)} {slot : Nat}
    {item : Item κ ν} (h : c.Holds (xs ++ (slot, item) :: ys)) (f : Entry κ ν → Entry κ ν)
    (hlinks : ∀ entry, (f entry).links = entry.links) {item' : Item κ ν}
    (hitem : ∀ entry, entry.item = item → (f entry).item = item') {clock : Nat}
    (hclock : c.clock ≤ clock) (hbelow : item'.stamp < clock)
    (hdescending : (xs ++ (slot, item') :: ys).Pairwise fun a b => b.2.stamp < a.2.stamp) :
    ({ c.modify slot f with clock } : Chain κ ν).Holds (xs ++ (slot, item') :: ys) := by
  set changed : Chain κ ν := { c.modify slot f with clock } with hchanged
  have hslots : (xs ++ (slot, item') :: ys).map (·.1) = (xs ++ (slot, item) :: ys).map (·.1) := by
    simp
  have hlinks? : ∀ other, changed.links? other = c.links? other := links?_modify f hlinks c slot
  have hslot : changed.item? slot = some item' := by
    obtain ⟨entry, hentry, hold⟩ := h.get?_middle
    have hget : changed.get? slot = some (f entry) := by
      refine (get?_modify c slot slot f).trans ?_
      simp [hentry]
    rw [Chain.item?, hget, Option.map_some, hitem entry hold]
  have hother : ∀ other ≠ slot, changed.item? other = c.item? other := by
    intro other hne
    have hget : changed.get? other = c.get? other :=
      (get?_modify c slot other f).trans (if_neg (Ne.symm hne))
    rw [Chain.item?, Chain.item?, hget]
  have hmem : ∀ cell ∈ xs ++ (slot, item') :: ys,
      cell = (slot, item') ∨ cell.1 ≠ slot ∧ cell ∈ xs ++ (slot, item) :: ys := by
    intro cell hcell
    simp only [List.mem_append, List.mem_cons] at hcell ⊢
    by_cases heq : cell = (slot, item')
    · exact Or.inl heq
    · have hrest : cell ∈ xs ∨ cell ∈ ys := by tauto
      refine Or.inr ⟨?_, by tauto⟩
      rintro rfl
      exact h.notMem_middle (List.mem_map_of_mem (List.mem_append.2 hrest))
  constructor
  case ordered =>
    rw [hslots]
    exact ⟨h.ordered.nodup, h.ordered.linked.congr fun other _ => hlinks? other, h.ordered.newest,
      h.ordered.oldest⟩
  case item =>
    intro cell hcell
    rcases hmem cell hcell with rfl | ⟨hne, hold⟩
    · exact hslot
    · rw [hother _ hne, h.item cell hold]
  case stale =>
    intro other hnotMem
    rw [hslots] at hnotMem
    have hne : other ≠ slot := by
      rintro rfl
      exact hnotMem (by simp)
    rw [hother other hne, h.stale other hnotMem]
  case size =>
    refine h.size.trans ?_
    simp
  case vacant_nodup => exact h.vacant_nodup
  case mem_vacant =>
    intro other
    have hsize : changed.slots.size = c.slots.size := size_slots_modify c slot f
    refine (h.mem_vacant other).trans ?_
    rw [hsize]
    by_cases heq : other = slot
    · simp [heq, hslot, h.item (slot, item) (by simp)]
    · rw [hother other heq]
  case descending => exact hdescending
  case below_clock =>
    intro cell hcell
    rcases hmem cell hcell with rfl | ⟨-, hold⟩
    · exact hbelow
    · exact Nat.lt_of_lt_of_le (h.below_clock cell hold) hclock

theorem Holds.touch {c : Chain κ ν} {xs ys : List (Nat × Item κ ν)} {slot : Nat}
    {item : Item κ ν} (h : c.Holds (xs ++ (slot, item) :: ys)) :
    (c.touch slot).Holds ((slot, { item with stamp := c.clock }) :: (xs ++ ys)) := by
  cases xs with
  | nil =>
    -- The newest entry stays where it is.
    have hnewest : c.newest = some slot := h.ordered.newest
    have hdescending := List.pairwise_cons.1 h.descending
    rw [Chain.touch, if_pos hnewest]
    refine h.modify (fun entry => { entry with stamp := c.clock }) (fun _ => rfl) ?_
      (Nat.le_succ c.clock) (Nat.lt_succ_self c.clock) (List.pairwise_cons.2 ⟨?_, hdescending.2⟩)
    · rintro entry rfl
      rfl
    · exact fun cell hcell => h.below_clock cell (List.mem_cons_of_mem _ hcell)
  | cons cell xs =>
    have hne : c.newest ≠ some slot := by
      intro hnewest
      have hhead : some cell.1 = some slot := h.ordered.newest.symm.trans hnewest
      refine h.notMem_middle ?_
      simp [Option.some.inj hhead]
    rw [Chain.touch, if_neg hne, ← (sameArena_detach c slot).clock]
    exact h.detach.attach

/-- Touching a stale slot only uses up a stamp. -/
theorem Holds.touch_of_stale {c : Chain κ ν} {cells : List (Nat × Item κ ν)} (h : c.Holds cells)
    {slot : Nat} (hslot : c.get? slot = none) :
    c.touch slot = { c with clock := c.clock + 1 } := by
  have hne : c.newest ≠ some slot := by
    rw [h.ordered.newest]
    exact fun hhead => h.notMem_of_stale hslot (List.mem_of_head? hhead)
  rw [Chain.touch, if_neg hne, detach_of_stale hslot, attach_of_stale hslot]

/-- Replacing changes the value and the footprint of one cell, and tells the old footprint. -/
theorem Holds.replace {c : Chain κ ν} {xs ys : List (Nat × Item κ ν)} {slot : Nat}
    {item : Item κ ν} (h : c.Holds (xs ++ (slot, item) :: ys)) (value : ν) (footprint : Int) :
    (c.replace slot value footprint).1 = some item.footprint ∧
      (c.replace slot value footprint).2.Holds
        (xs ++ (slot, { item with value, footprint }) :: ys) := by
  obtain ⟨entry, hentry, rfl⟩ := h.get?_middle
  refine ⟨by simp [Chain.replace, hentry, Entry.item], ?_⟩
  refine h.modify (fun entry => entry.replace value footprint) (fun _ => rfl) ?_
    (Nat.le_refl c.clock) (h.below_clock (slot, entry.item) (by simp)) ?_
  · intro other hother
    simp only [Entry.item, Item.mk.injEq] at hother
    simp [Entry.item, Entry.replace, hother]
  · have hdescending := h.descending
    simp only [List.pairwise_append, List.pairwise_cons, List.mem_cons, forall_eq_or_imp]
      at hdescending ⊢
    exact hdescending

end Chain

end BudgetCache
