import BudgetCache.Chain.Order
import Mathlib.Data.List.Nodup

/-!
# The links of a chain

A live slot has two sides that are changed by different steps: the links to its two neighbours, and
the item that it holds. `links?` and `item?` look at one side each. Cutting a slot out of the order
and putting it in front then come down to statements about a list of slots: `Linked` says that the
slots of a list are linked one after the other, and `Ordered` adds that the two ends of the chain
are the two ends of the list.
-/

namespace BudgetCache

/-- What an entry is apart from its place among its neighbours. -/
structure Item (κ ν : Type) where
  /-- The key, as first stored. -/
  key : κ
  /-- The value. -/
  value : ν
  /-- The space that the value takes up. -/
  footprint : Int
  /-- When the entry was last touched. -/
  stamp : Nat
  deriving Repr, DecidableEq

namespace Entry

variable {κ ν : Type}

/-- The entry without its links. -/
def item (entry : Entry κ ν) : Item κ ν :=
  ⟨entry.key, entry.value, entry.footprint, entry.stamp⟩

/-- The links of the entry, the newer neighbour first. -/
def links (entry : Entry κ ν) : Option Nat × Option Nat :=
  (entry.newer, entry.older)

end Entry

namespace Chain

variable {κ ν : Type}

/-- The item in a slot. -/
def item? (c : Chain κ ν) (slot : Nat) : Option (Item κ ν) :=
  (c.get? slot).map Entry.item

/-- The links of the entry in a slot. -/
def links? (c : Chain κ ν) (slot : Nat) : Option (Option Nat × Option Nat) :=
  (c.get? slot).map Entry.links

theorem item?_eq_none {c : Chain κ ν} {slot : Nat} : c.item? slot = none ↔ c.get? slot = none := by
  simp [item?]

theorem get?_of_links? {c : Chain κ ν} {slot : Nat} {newer older : Option Nat}
    (h : c.links? slot = some (newer, older)) :
    ∃ entry, c.get? slot = some entry ∧ entry.newer = newer ∧ entry.older = older := by
  obtain ⟨entry, hentry, hlinks⟩ := Option.map_eq_some_iff.1 h
  simp only [Entry.links, Prod.mk.injEq] at hlinks
  exact ⟨entry, hentry, hlinks.1, hlinks.2⟩

theorem lt_size_of_item? {c : Chain κ ν} {slot : Nat} {item : Item κ ν}
    (h : c.item? slot = some item) : slot < c.slots.size := by
  by_contra hge
  simp [item?, get?, Array.getElem?_eq_none (Nat.le_of_not_lt hge)] at h

/-! ## What the steps on one entry change -/

/-- A step that keeps the item of every entry keeps the items of the chain. -/
theorem item?_modify (f : Entry κ ν → Entry κ ν) (hf : ∀ entry, (f entry).item = entry.item)
    (c : Chain κ ν) (slot other : Nat) : (c.modify slot f).item? other = c.item? other := by
  simp only [item?, get?_modify]
  split
  · cases c.get? other <;> simp [hf]
  · rfl

/-- A step that keeps the links of every entry keeps the links of the chain. -/
theorem links?_modify (f : Entry κ ν → Entry κ ν) (hf : ∀ entry, (f entry).links = entry.links)
    (c : Chain κ ν) (slot other : Nat) : (c.modify slot f).links? other = c.links? other := by
  simp only [links?, get?_modify]
  split
  · cases c.get? other <;> simp [hf]
  · rfl

theorem links?_modify_of_ne {c : Chain κ ν} {slot other : Nat} (h : slot ≠ other)
    (f : Entry κ ν → Entry κ ν) : (c.modify slot f).links? other = c.links? other := by
  simp [links?, get?_modify, h]

@[simp]
theorem size_slots_modify (c : Chain κ ν) (slot : Nat) (f : Entry κ ν → Entry κ ν) :
    (c.modify slot f).slots.size = c.slots.size := by
  simp [modify]

@[simp]
theorem item?_setOlder (c : Chain κ ν) (neighbour older : Option Nat) (slot : Nat) :
    (c.setOlder neighbour older).item? slot = c.item? slot := by
  cases neighbour with
  | none => rfl
  | some first =>
    refine item?_modify _ ?_ c first slot
    exact fun _ => rfl

@[simp]
theorem item?_setNewer (c : Chain κ ν) (neighbour newer : Option Nat) (slot : Nat) :
    (c.setNewer neighbour newer).item? slot = c.item? slot := by
  cases neighbour with
  | none => rfl
  | some first =>
    refine item?_modify _ ?_ c first slot
    exact fun _ => rfl

/-- Only the neighbour gets another older link. -/
theorem links?_setOlder (c : Chain κ ν) (neighbour older : Option Nat) (slot : Nat) :
    (c.setOlder neighbour older).links? slot =
      if neighbour = some slot then (c.links? slot).map fun links => (links.1, older)
      else c.links? slot := by
  cases neighbour with
  | none => rfl
  | some first =>
    simp only [setOlder, links?, get?_modify, Option.some.injEq]
    split
    · cases c.get? slot <;> rfl
    · rfl

theorem links?_setNewer (c : Chain κ ν) (neighbour newer : Option Nat) (slot : Nat) :
    (c.setNewer neighbour newer).links? slot =
      if neighbour = some slot then (c.links? slot).map fun links => (newer, links.2)
      else c.links? slot := by
  cases neighbour with
  | none => rfl
  | some first =>
    simp only [setNewer, links?, get?_modify, Option.some.injEq]
    split
    · cases c.get? slot <;> rfl
    · rfl

@[simp]
theorem newest_setOlder (c : Chain κ ν) (neighbour older : Option Nat) :
    (c.setOlder neighbour older).newest = if neighbour = none then older else c.newest := by
  cases neighbour <;> rfl

@[simp]
theorem oldest_setOlder (c : Chain κ ν) (neighbour older : Option Nat) :
    (c.setOlder neighbour older).oldest = c.oldest := by
  cases neighbour <;> rfl

@[simp]
theorem newest_setNewer (c : Chain κ ν) (neighbour newer : Option Nat) :
    (c.setNewer neighbour newer).newest = c.newest := by
  cases neighbour <;> rfl

@[simp]
theorem oldest_setNewer (c : Chain κ ν) (neighbour newer : Option Nat) :
    (c.setNewer neighbour newer).oldest = if neighbour = none then newer else c.oldest := by
  cases neighbour <;> rfl

/-- Two chains whose arenas have the same slots, vacant and taken, and the same clock. -/
structure SameArena (c d : Chain κ ν) : Prop where
  slots : d.slots.size = c.slots.size
  vacant : d.vacant = c.vacant
  size : d.size = c.size
  clock : d.clock = c.clock

theorem SameArena.trans {c d e : Chain κ ν} (h : c.SameArena d) (h' : d.SameArena e) :
    c.SameArena e :=
  ⟨h'.slots.trans h.slots, h'.vacant.trans h.vacant, h'.size.trans h.size, h'.clock.trans h.clock⟩

theorem sameArena_modify (c : Chain κ ν) (slot : Nat) (f : Entry κ ν → Entry κ ν) :
    c.SameArena (c.modify slot f) :=
  ⟨size_slots_modify c slot f, rfl, rfl, rfl⟩

theorem sameArena_setOlder (c : Chain κ ν) (neighbour older : Option Nat) :
    c.SameArena (c.setOlder neighbour older) := by
  cases neighbour with
  | none => exact ⟨rfl, rfl, rfl, rfl⟩
  | some slot => exact sameArena_modify c slot _

theorem sameArena_setNewer (c : Chain κ ν) (neighbour newer : Option Nat) :
    c.SameArena (c.setNewer neighbour newer) := by
  cases neighbour with
  | none => exact ⟨rfl, rfl, rfl, rfl⟩
  | some slot => exact sameArena_modify c slot _

/-! ## Linked slots -/

/-- The slots of a list are linked one after the other. The slot `newer`, if any, comes before the
first of them, and the slot `older`, if any, after the last. -/
def Linked (c : Chain κ ν) : Option Nat → List Nat → Option Nat → Prop
  | _, [], _ => True
  | newer, slot :: slots, older =>
    c.links? slot = some (newer, slots.head?.or older) ∧ c.Linked (some slot) slots older

/-- Linked slots may be cut in two anywhere; each half then borders on the other. -/
theorem linked_append {c : Chain κ ν} {xs ys : List Nat} {newer older : Option Nat} :
    c.Linked newer (xs ++ ys) older ↔
      c.Linked newer xs (ys.head?.or older) ∧ c.Linked (xs.getLast?.or newer) ys older := by
  induction xs generalizing newer with
  | nil => simp [Linked]
  | cons x xs ih =>
    have hlast : (x :: xs).getLast?.or newer = xs.getLast?.or (some x) := by
      cases hxs : xs.getLast? <;> simp [List.getLast?_cons, hxs]
    simp only [List.cons_append, Linked, List.head?_append, Option.or_assoc, ih, hlast, and_assoc]

/-- Whether slots are linked depends on their links only. -/
theorem Linked.congr {c d : Chain κ ν} {xs : List Nat} {newer older : Option Nat}
    (h : c.Linked newer xs older) (hlinks : ∀ x ∈ xs, d.links? x = c.links? x) :
    d.Linked newer xs older := by
  induction xs generalizing newer with
  | nil => trivial
  | cons x xs ih =>
    refine ⟨?_, ih h.2 fun y hy => hlinks y (List.mem_cons_of_mem x hy)⟩
    rw [hlinks x List.mem_cons_self]
    exact h.1

/-- The last slot may be made to border on another slot. -/
theorem Linked.setOlder_last {c : Chain κ ν} {xs : List Nat} {newer older : Option Nat}
    (h : c.Linked newer xs older) (hxs : xs.Nodup) (older' : Option Nat) :
    (c.setOlder xs.getLast? older').Linked newer xs older' := by
  rcases List.eq_nil_or_concat' xs with rfl | ⟨xs, x, rfl⟩
  · trivial
  · have hne : ∀ y ∈ xs, x ≠ y := by
      intro y hy hxy
      exact (List.nodup_append.1 hxs).2.2 y hy x (by simp) hxy.symm
    obtain ⟨hinit, hlast, -⟩ := linked_append.1 h
    refine linked_append.2 ⟨?_, ?_, trivial⟩
    · refine hinit.congr fun y hy => ?_
      simp [links?_setOlder, hne y hy]
    · simp [links?_setOlder, hlast]

theorem Linked.setNewer_head {c : Chain κ ν} {xs : List Nat} {newer older : Option Nat}
    (h : c.Linked newer xs older) (hxs : xs.Nodup) (newer' : Option Nat) :
    (c.setNewer xs.head? newer').Linked newer' xs older := by
  cases xs with
  | nil => trivial
  | cons x xs =>
    have hne : ∀ y ∈ xs, x ≠ y := by
      intro y hy hxy
      exact (List.nodup_cons.1 hxs).1 (hxy ▸ hy)
    refine ⟨?_, ?_⟩
    · simp [links?_setNewer, h.1]
    · refine h.2.congr fun y hy => ?_
      simp [links?_setNewer, hne y hy]

/-- Linked slots are not affected by a change to another slot's older link. -/
theorem Linked.setOlder_of_notMem {c : Chain κ ν} {xs : List Nat}
    {newer older neighbour : Option Nat} (h : c.Linked newer xs older)
    (hxs : ∀ x ∈ xs, neighbour ≠ some x) (older' : Option Nat) :
    (c.setOlder neighbour older').Linked newer xs older :=
  h.congr fun x hx => by simp [links?_setOlder, hxs x hx]

theorem Linked.setNewer_of_notMem {c : Chain κ ν} {xs : List Nat}
    {newer older neighbour : Option Nat} (h : c.Linked newer xs older)
    (hxs : ∀ x ∈ xs, neighbour ≠ some x) (newer' : Option Nat) :
    (c.setNewer neighbour newer').Linked newer xs older :=
  h.congr fun x hx => by simp [links?_setNewer, hxs x hx]

/-- The slots of a list, each once, are the chain from its newest to its oldest end. -/
structure Ordered (c : Chain κ ν) (slots : List Nat) : Prop where
  nodup : slots.Nodup
  linked : c.Linked none slots none
  newest : c.newest = slots.head?
  oldest : c.oldest = slots.getLast?

/-! ## Cutting out and putting in front -/

@[simp]
theorem item?_detach (c : Chain κ ν) (slot other : Nat) :
    (c.detach slot).item? other = c.item? other := by
  unfold detach
  split
  · rfl
  · simp only [item?_setNewer, item?_setOlder]
    refine item?_modify _ ?_ c slot other
    exact fun _ => rfl

theorem sameArena_detach (c : Chain κ ν) (slot : Nat) : c.SameArena (c.detach slot) := by
  unfold detach
  split
  · exact ⟨rfl, rfl, rfl, rfl⟩
  · exact ((sameArena_modify _ _ _).trans (sameArena_setOlder _ _ _)).trans
      (sameArena_setNewer _ _ _)

theorem Ordered.links?_middle {c : Chain κ ν} {xs ys : List Nat} {slot : Nat}
    (h : c.Ordered (xs ++ slot :: ys)) : c.links? slot = some (xs.getLast?, ys.head?) := by
  simpa using (linked_append.1 h.linked).2.1

/-- The entry that was cut out has no neighbours. -/
theorem Ordered.links?_detach {c : Chain κ ν} {xs ys : List Nat} {slot : Nat}
    (h : c.Ordered (xs ++ slot :: ys)) : (c.detach slot).links? slot = some (none, none) := by
  obtain ⟨entry, hentry, hnewer, holder⟩ := get?_of_links? h.links?_middle
  have hnodup := List.nodup_middle.1 h.nodup
  have hxs : xs.getLast? ≠ some slot := fun hlast =>
    (List.nodup_cons.1 hnodup).1 (List.mem_append_left ys (List.mem_of_getLast? hlast))
  have hys : ys.head? ≠ some slot := fun hhead =>
    (List.nodup_cons.1 hnodup).1 (List.mem_append_right xs (List.mem_of_head? hhead))
  simp only [detach, hentry, hnewer, holder, links?_setNewer, hys, links?_setOlder, hxs]
  simp [links?, get?_modify, hentry, Entry.links]

/-- Cutting a slot out of the order leaves the others in their order. -/
theorem Ordered.detach {c : Chain κ ν} {xs ys : List Nat} {slot : Nat}
    (h : c.Ordered (xs ++ slot :: ys)) : (c.detach slot).Ordered (xs ++ ys) := by
  obtain ⟨entry, hentry, hnewer, holder⟩ := get?_of_links? h.links?_middle
  have hnodup := List.nodup_cons.1 (List.nodup_middle.1 h.nodup)
  obtain ⟨hxs, hys, hdisjoint⟩ := List.nodup_append.1 hnodup.2
  obtain ⟨hfront, -, hback⟩ := linked_append.1 h.linked
  set alone := c.modify slot fun entry => { entry with newer := none, older := none } with halone
  have hdetach : c.detach slot =
      (alone.setOlder xs.getLast? ys.head?).setNewer ys.head? xs.getLast? := by
    simp only [Chain.detach, hentry, hnewer, holder, halone]
  have hne : ∀ x ∈ xs ++ ys, alone.links? x = c.links? x := by
    intro x hx
    refine links?_modify_of_ne ?_ _
    rintro rfl
    exact hnodup.1 hx
  -- The two halves are linked anew at their ends, and each change misses the other half.
  have hfront' : (c.detach slot).Linked none xs ys.head? := by
    rw [hdetach]
    refine Linked.setNewer_of_notMem (Linked.setOlder_last
      (hfront.congr fun x hx => hne x (List.mem_append_left ys hx)) hxs _) (fun x hx hhead => ?_) _
    exact hdisjoint x hx x (List.mem_of_head? hhead) rfl
  have hback' : (c.detach slot).Linked xs.getLast? ys none := by
    rw [hdetach]
    refine Linked.setNewer_head (Linked.setOlder_of_notMem
      (hback.congr fun y hy => hne y (List.mem_append_right xs hy)) (fun y hy hlast => ?_) _) hys _
    exact hdisjoint y (List.mem_of_getLast? hlast) y hy rfl
  refine ⟨hnodup.2, linked_append.2 ⟨by simpa using hfront', by simpa using hback'⟩, ?_, ?_⟩
  · rw [hdetach, newest_setNewer, newest_setOlder]
    rcases List.eq_nil_or_concat' xs with rfl | ⟨xs, x, rfl⟩
    · simp
    · simpa [halone, modify] using h.newest
  · rw [hdetach, oldest_setNewer, oldest_setOlder]
    cases ys with
    | nil => simp
    | cons y ys => simpa [halone, modify, List.getLast?_cons] using h.oldest

theorem detach_of_stale {c : Chain κ ν} {slot : Nat} (h : c.get? slot = none) :
    c.detach slot = c := by
  simp [detach, h]

/-- Putting a live slot in front, one change after the other. -/
theorem attach_of_live {c : Chain κ ν} {slot : Nat} {entry : Entry κ ν}
    (h : c.get? slot = some entry) :
    c.attach slot =
      { (({ c with clock := c.clock + 1 }).modify slot fun entry =>
          { entry with stamp := c.clock, newer := none, older := c.newest }).setNewer c.newest
            (some slot) with newest := some slot } := by
  simp only [attach, h]

theorem attach_of_stale {c : Chain κ ν} {slot : Nat} (h : c.get? slot = none) :
    c.attach slot = { c with clock := c.clock + 1 } := by
  simp [attach, h]

/-- Only the entry that is put in front gets another stamp. -/
theorem item?_attach {c : Chain κ ν} {slot : Nat} {item : Item κ ν} (h : c.item? slot = some item)
    (other : Nat) :
    (c.attach slot).item? other =
      if slot = other then some { item with stamp := c.clock } else c.item? other := by
  obtain ⟨entry, hentry, rfl⟩ := Option.map_eq_some_iff.1 h
  rw [attach_of_live hentry]
  refine (item?_setNewer _ _ _ _).trans ?_
  simp only [item?, get?_modify]
  split
  · next heq =>
    subst heq
    have hentry' : ({ c with clock := c.clock + 1 } : Chain κ ν).get? slot = some entry := hentry
    simp [hentry', Entry.item]
  · rfl

theorem sameArena_attach (c : Chain κ ν) (slot : Nat) :
    ({ c with clock := c.clock + 1 } : Chain κ ν).SameArena (c.attach slot) := by
  cases h : c.get? slot with
  | none =>
    rw [attach_of_stale h]
    exact ⟨rfl, rfl, rfl, rfl⟩
  | some entry =>
    rw [attach_of_live h]
    obtain ⟨hslots, hvacant, hsize, hclock⟩ :=
      (sameArena_modify { c with clock := c.clock + 1 } slot _).trans
        (sameArena_setNewer _ c.newest (some slot))
    exact ⟨hslots, hvacant, hsize, hclock⟩

/-- Putting a slot in front of an order that it does not belong to. -/
theorem Ordered.attach {c : Chain κ ν} {slots : List Nat} {slot : Nat} {entry : Entry κ ν}
    (h : c.Ordered slots) (hslot : slot ∉ slots) (hentry : c.get? slot = some entry) :
    (c.attach slot).Ordered (slot :: slots) := by
  rw [attach_of_live hentry]
  set stamped := ({ c with clock := c.clock + 1 } : Chain κ ν).modify slot fun entry =>
    { entry with stamp := c.clock, newer := none, older := c.newest } with hstamped
  have hhead : slots.head? ≠ some slot := fun hhead => hslot (List.mem_of_head? hhead)
  have hlinks : stamped.links? slot = some (none, slots.head?) := by
    have hentry' : ({ c with clock := c.clock + 1 } : Chain κ ν).get? slot = some entry := hentry
    rw [← h.newest]
    simp [hstamped, links?, get?_modify, hentry', Entry.links]
  have hrest : stamped.Linked none slots none := by
    refine h.linked.congr fun x hx => ?_
    refine links?_modify_of_ne ?_ _
    rintro rfl
    exact hslot hx
  refine ⟨List.nodup_cons.2 ⟨hslot, h.nodup⟩, ⟨?_, ?_⟩, rfl, ?_⟩
  · have hslot' := links?_setNewer stamped slots.head? (some slot) slot
    rw [if_neg hhead, hlinks] at hslot'
    rw [h.newest, Option.or_none]
    exact hslot'
  · rw [h.newest]
    exact (hrest.setNewer_head h.nodup (some slot)).congr fun _ _ => rfl
  · have holdest := oldest_setNewer stamped c.newest (some slot)
    refine holdest.trans ?_
    rw [h.newest]
    cases slots with
    | nil => simp
    | cons x xs => simpa [hstamped, modify, List.getLast?_cons] using h.oldest

end Chain

end BudgetCache
