import BudgetCache.Proofs.ChainLinks
import BudgetCache.Table.Operation

/-!
# The reference cache

A cache in its plainest form: one list of items, the newest first, beside the limit, the clock and
the counters. There is no index, no arena and no running sum; a key is found by searching the list,
and the space in use is added up each time it is needed. Every operation does to the list what its
description says. The tables are measured against it, replies and events included.
-/

namespace BudgetCache

/-- Items, the newest first, with a limit, a clock and counters. -/
structure Reference (κ ν : Type) where
  /-- The items, the newest first. -/
  items : List (Item κ ν) := []
  /-- The space that may be in use. -/
  limit : Int
  /-- The next stamp. -/
  clock : Nat := 0
  /-- How the cache has been used. -/
  counters : Counters := {}
  deriving Repr, DecidableEq

namespace Reference

variable {κ ν : Type}

/-- The reference without items. -/
def empty (limit : Int) : Reference κ ν :=
  { limit }

/-- The space that a list of items takes up. -/
def spaceIn : List (Item κ ν) → Int
  | [] => 0
  | item :: items => item.footprint + spaceIn items

/-- The space in use. -/
def total (r : Reference κ ν) : Int :=
  spaceIn r.items

@[simp]
theorem spaceIn_nil : spaceIn ([] : List (Item κ ν)) = 0 :=
  rfl

@[simp]
theorem spaceIn_cons (item : Item κ ν) (items : List (Item κ ν)) :
    spaceIn (item :: items) = item.footprint + spaceIn items :=
  rfl

@[simp]
theorem spaceIn_append (items items' : List (Item κ ν)) :
    spaceIn (items ++ items') = spaceIn items + spaceIn items' := by
  induction items with
  | nil => simp
  | cons item items ih =>
    rw [List.cons_append, spaceIn_cons, spaceIn_cons, ih]
    omega

theorem spaceIn_nonneg {items : List (Item κ ν)} (h : ∀ item ∈ items, 0 ≤ item.footprint) :
    0 ≤ spaceIn items := by
  induction items with
  | nil => exact Int.le_refl 0
  | cons item items ih =>
    have hitem := h item List.mem_cons_self
    have hitems := ih fun other hother => h other (List.mem_cons_of_mem item hother)
    rw [spaceIn_cons]
    omega

/-- Drops the oldest item and counts that. -/
def pop (r : Reference κ ν) : Reference κ ν :=
  { r with items := r.items.dropLast, counters := r.counters.eviction }

/-- Pops items as long as the space in use is over the mark and an item is left. -/
def popWhile (exceeds : Int → Bool) (r : Reference κ ν) : Reference κ ν × List Event :=
  match _hlast : r.items.getLast? with
  | none => (r, [])
  | some oldest =>
    if exceeds r.total then
      let (last, events) := popWhile exceeds r.pop
      (last, .evicted oldest.footprint oldest.stamp :: events)
    else (r, [])
termination_by r.items.length
decreasing_by
  have hne : r.items ≠ [] := by
    intro hnil
    simp [hnil] at _hlast
  have hpos := List.length_pos_iff.2 hne
  simp only [pop, List.length_dropLast]
  omega

theorem popWhile_nil (exceeds : Int → Bool) {r : Reference κ ν} (h : r.items = []) :
    r.popWhile exceeds = (r, []) := by
  rw [popWhile]
  split
  · rfl
  · next oldest hlast => simp [h] at hlast

theorem popWhile_concat (exceeds : Int → Bool) {r : Reference κ ν} {items : List (Item κ ν)}
    {oldest : Item κ ν} (h : r.items = items ++ [oldest]) :
    r.popWhile exceeds =
      if exceeds r.total then
        ((r.pop.popWhile exceeds).1,
          .evicted oldest.footprint oldest.stamp :: (r.pop.popWhile exceeds).2)
      else (r, []) := by
  rw [popWhile]
  split
  · next hlast => simp [h] at hlast
  · next last hlast =>
    have heq : oldest = last := by simpa [h] using hlast
    rw [heq]

theorem popWhile_of_not_exceeds {exceeds : Int → Bool} {r : Reference κ ν}
    (h : exceeds r.total = false) : r.popWhile exceeds = (r, []) := by
  rcases List.eq_nil_or_concat' r.items with hnil | ⟨items, oldest, hitems⟩
  · exact popWhile_nil exceeds hnil
  · rw [popWhile_concat exceeds hitems, h]
    rfl

/-- Adds an item in front, with the next stamp. -/
def pushFront (r : Reference κ ν) (key : κ) (value : ν) (footprint : Int) : Reference κ ν :=
  { r with items := ⟨key, value, footprint, r.clock⟩ :: r.items, clock := r.clock + 1 }

/-- Adds an item with an absent key, after popping what has to go. A footprint larger than the limit
is refused instead. -/
def insertAbsent (r : Reference κ ν) (key : κ) (value : ν) (footprint : Int) :
    Outcome (Reference κ ν) ν :=
  if r.limit < footprint then
    { reply := value
      after := { r with counters := r.counters.rejection }
      events := [.rejected footprint r.limit] }
  else
    let (roomy, events) := r.popWhile fun total => decide (r.limit < total + footprint)
    { reply := value, after := roomy.pushFront key value footprint, events }

/-- Drops every item. -/
def clear (r : Reference κ ν) : Outcome (Reference κ ν) Unit :=
  { reply := (), after := { r with items := [] }, events := [.flushing r.items.length] }

/-- Changes the limit. A lower limit first pops items until the rest stays within it. -/
def setLimit (r : Reference κ ν) (limit : Int) : Outcome (Reference κ ν) Unit :=
  if limit < r.limit then
    let (fitting, events) := r.popWhile fun total => decide (limit < total)
    { reply := ()
      after := { fitting with limit }
      events := events ++
        [.limitLowered r.limit limit (r.items.length - fitting.items.length)] }
  else
    { reply := (), after := { r with limit } }

variable [BEq κ]

/-- The item of a key. -/
def find? (r : Reference κ ν) (key : κ) : Option (Item κ ν) :=
  r.items.find? (·.key == key)

/-- The items of all other keys. -/
def others (key : κ) (items : List (Item κ ν)) : List (Item κ ν) :=
  items.filter fun item => !(item.key == key)

/-- The reference without the item of a key. -/
def without (r : Reference κ ν) (key : κ) : Reference κ ν :=
  { r with items := others key r.items }

/-- The value of a key. -/
def peek (r : Reference κ ν) (key : κ) : Option ν :=
  (r.find? key).map (·.value)

/-- The stored key that equals `key`, or `key` itself. -/
def storedKey (r : Reference κ ν) (key : κ) : κ :=
  ((r.find? key).map (·.key)).getD key

/-- Whether a key has an item. -/
def contains (r : Reference κ ν) (key : κ) : Bool :=
  (r.find? key).isSome

/-- The value of a key, whose item moves to the front. -/
def get (r : Reference κ ν) (key : κ) : Outcome (Reference κ ν) (Option ν) :=
  match r.find? key with
  | none => { reply := none, after := { r with counters := r.counters.miss } }
  | some item =>
    { reply := some item.value
      after := { (r.without key).pushFront item.key item.value item.footprint with
        counters := r.counters.hit } }

/-- Stores a value. If it fits in the place of the old one, the item moves to the front with its key
as it is; otherwise the old item, if any, is dropped first. -/
def put [Footprint ν] (r : Reference κ ν) (key : κ) (value : ν) : Outcome (Reference κ ν) ν :=
  match r.find? key with
  | none => (r.without key).insertAbsent key value (spaceOf value)
  | some item =>
    if r.total - item.footprint + spaceOf value ≤ r.limit then
      { reply := value, after := (r.without key).pushFront item.key value (spaceOf value) }
    else (r.without key).insertAbsent key value (spaceOf value)

/-- Removes a key and tells its value. -/
def remove (r : Reference κ ν) (key : κ) : Outcome (Reference κ ν) (Option ν) :=
  { reply := r.peek key, after := r.without key }

/-- Carries out an operation. -/
def apply [Footprint ν] (r : Reference κ ν) :
    Operation κ ν → Outcome (Reference κ ν) (Reply κ ν)
  | .put key value => (r.put key value).map .echo
  | .get key => (r.get key).map .found
  | .peek key => { reply := .found (r.peek key), after := r }
  | .storedKey key => { reply := .key (r.storedKey key), after := r }
  | .contains key => { reply := .answer (r.contains key), after := r }
  | .remove key => (r.remove key).map .found
  | .erase key => (r.remove key).map fun _ => .done
  | .clear => r.clear.map fun _ => .done
  | .setLimit limit => (r.setLimit limit).map fun _ => .done

/-- Carries out a list of operations. The reply lists the replies. -/
def run [Footprint ν] (r : Reference κ ν) :
    List (Operation κ ν) → Outcome (Reference κ ν) (List (Reply κ ν))
  | [] => { reply := [], after := r }
  | op :: ops =>
    let first := r.apply op
    let rest := first.after.run ops
    { reply := first.reply :: rest.reply
      after := rest.after
      events := first.events ++ rest.events }

/-! ## Items by key -/

theorem mem_others {key : κ} {items : List (Item κ ν)} {item : Item κ ν} :
    item ∈ others key items ↔ item ∈ items ∧ (item.key == key) = false := by
  simp [others]

theorem others_eq_self {key : κ} {items : List (Item κ ν)}
    (h : ∀ item ∈ items, (item.key == key) = false) : others key items = items := by
  refine List.filter_eq_self.2 fun item hitem => ?_
  rw [h item hitem]
  rfl

theorem exists_of_find? {r : Reference κ ν} {key : κ} {item : Item κ ν}
    (h : r.find? key = some item) :
    (item.key == key) = true ∧ ∃ xs ys, r.items = xs ++ item :: ys := by
  obtain ⟨hkey, xs, ys, hitems, -⟩ := List.find?_eq_some_iff_append.1 h
  exact ⟨hkey, xs, ys, hitems⟩

/-! ## Well-formed references -/

/-- No key occurs twice. -/
def Distinct (items : List (Item κ ν)) : Prop :=
  items.Pairwise fun a b => (a.key == b.key) = false

section Lawful

variable [EquivBEq κ]

theorem Distinct.middle {xs ys : List (Item κ ν)} {item : Item κ ν}
    (h : Distinct (xs ++ item :: ys)) {key : κ} (hkey : (item.key == key) = true) :
    ∀ other ∈ xs ++ ys, (other.key == key) = false := by
  intro other hother
  have hne : (item.key == other.key) = false := by
    rw [Distinct, List.pairwise_middle fun hab => BEq.symm_false hab] at h
    exact (List.pairwise_cons.1 h).1 other hother
  by_contra hsame
  rw [Bool.not_eq_false] at hsame
  rw [BEq.trans hkey (BEq.symm hsame)] at hne
  contradiction

theorem Distinct.others_middle {xs ys : List (Item κ ν)} {item : Item κ ν}
    (h : Distinct (xs ++ item :: ys)) {key : κ} (hkey : (item.key == key) = true) :
    others key (xs ++ item :: ys) = xs ++ ys := by
  rw [← others_eq_self (h.middle hkey)]
  simp [others, hkey]

end Lawful

/-- The lists that a cache may consist of: no key occurs twice, every footprint is that of the
value, and the stamps decrease and lie below the clock. -/
structure WellFormed [Footprint ν] (r : Reference κ ν) : Prop where
  distinct : Distinct r.items
  fair : ∀ item ∈ r.items, item.footprint = spaceOf item.value
  descending : r.items.Pairwise fun a b => b.stamp < a.stamp
  below_clock : ∀ item ∈ r.items, item.stamp < r.clock

theorem WellFormed.footprint_nonneg [Footprint ν] {r : Reference κ ν} (h : r.WellFormed) :
    ∀ item ∈ r.items, 0 ≤ item.footprint := by
  intro item hitem
  rw [h.fair item hitem]
  exact spaceOf_nonneg item.value

theorem WellFormed.withCounters [Footprint ν] {r : Reference κ ν} (h : r.WellFormed)
    (counters : Counters) : WellFormed { r with counters } :=
  ⟨h.distinct, h.fair, h.descending, h.below_clock⟩

end Reference

end BudgetCache
