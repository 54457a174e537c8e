import BudgetCache.Proofs.Reference
import Mathlib.Data.List.Induction

/-!
# What fits

Popping the oldest items until the rest fits leaves the longest run of newest items that does. Here
the loop is replaced by this description, and the operations that pop are told in terms of it: a
value that is stored comes to stand in front of what fits beside it.
-/

namespace BudgetCache

namespace Reference

variable {κ ν : Type}

/-! ## The items that fit -/

/-- The longest run of items, from the first on, whose footprints stay within the room. -/
def fitting (room : Int) : List (Item κ ν) → List (Item κ ν)
  | [] => []
  | item :: items =>
    if item.footprint ≤ room then item :: fitting (room - item.footprint) items else []

theorem fitting_prefix_items (room : Int) (items : List (Item κ ν)) :
    fitting room items <+: items := by
  induction items generalizing room with
  | nil => exact List.prefix_rfl
  | cons item items ih =>
    unfold fitting
    split
    · exact List.cons_prefix_cons.2 ⟨rfl, ih _⟩
    · exact List.nil_prefix

theorem spaceIn_fitting_le {room : Int} (h : 0 ≤ room) (items : List (Item κ ν)) :
    spaceIn (fitting room items) ≤ room := by
  induction items generalizing room with
  | nil => exact h
  | cons item items ih =>
    unfold fitting
    split
    · next hle =>
      have hrest := ih (Int.sub_nonneg.2 hle)
      rw [spaceIn_cons]
      omega
    · exact h

theorem fitting_of_neg {room : Int} {items : List (Item κ ν)} (h : room < 0)
    (hnonneg : ∀ item ∈ items, 0 ≤ item.footprint) : fitting room items = [] := by
  cases items with
  | nil => rfl
  | cons item items =>
    have hitem := hnonneg item List.mem_cons_self
    exact if_neg (by omega)

theorem fitting_eq_nil_or_le {room : Int} {items : List (Item κ ν)}
    (hnonneg : ∀ item ∈ items, 0 ≤ item.footprint) :
    fitting room items = [] ∨ spaceIn (fitting room items) ≤ room := by
  by_cases hneg : room < 0
  · exact .inl (fitting_of_neg hneg hnonneg)
  · exact .inr (spaceIn_fitting_le (Int.not_lt.1 hneg) items)

theorem fitting_of_le {room : Int} {items : List (Item κ ν)} (h : spaceIn items ≤ room)
    (hnonneg : ∀ item ∈ items, 0 ≤ item.footprint) : fitting room items = items := by
  induction items generalizing room with
  | nil => rfl
  | cons item items ih =>
    have hitems : ∀ other ∈ items, 0 ≤ other.footprint := fun other hother =>
      hnonneg other (List.mem_cons_of_mem item hother)
    have hrest := spaceIn_nonneg hitems
    rw [spaceIn_cons] at h
    rw [fitting, if_pos (by omega), ih (by omega) hitems]

/-- The longest run of items, from the first on, that takes up no more than the room. -/
structure Longest (room : Int) (items kept : List (Item κ ν)) : Prop where
  initial : kept <+: items
  within : spaceIn kept ≤ room
  longest : ∀ run, run <+: items → spaceIn run ≤ room → run <+: kept

theorem prefix_fitting {room : Int} {run items : List (Item κ ν)} (hrun : run <+: items)
    (hle : spaceIn run ≤ room) (hnonneg : ∀ item ∈ items, 0 ≤ item.footprint) :
    run <+: fitting room items := by
  induction items generalizing room run with
  | nil => exact hrun
  | cons item items ih =>
    have hitems : ∀ other ∈ items, 0 ≤ other.footprint := fun other hother =>
      hnonneg other (List.mem_cons_of_mem item hother)
    cases run with
    | nil => exact List.nil_prefix
    | cons first run =>
      obtain ⟨rfl, htail⟩ := List.cons_prefix_cons.1 hrun
      have hrest : 0 ≤ spaceIn run := spaceIn_nonneg fun other hother =>
        hitems other (htail.subset hother)
      rw [spaceIn_cons] at hle
      rw [fitting, if_pos (by omega)]
      exact List.cons_prefix_cons.2 ⟨rfl, ih htail (by omega) hitems⟩

theorem longest_fitting {room : Int} {items : List (Item κ ν)} (h : 0 ≤ room)
    (hnonneg : ∀ item ∈ items, 0 ≤ item.footprint) : Longest room items (fitting room items) :=
  ⟨fitting_prefix_items room items, spaceIn_fitting_le h items,
    fun _ hrun hle => prefix_fitting hrun hle hnonneg⟩

/-- An item that is left out does not fit together with all that is newer. -/
theorem Longest.lt_spaceIn {room : Int} {kept newer older : List (Item κ ν)} {item : Item κ ν}
    (h : Longest room (kept ++ (newer ++ item :: older)) kept) :
    room < spaceIn (kept ++ newer ++ [item]) := by
  by_contra hfits
  have hrun : kept ++ newer ++ [item] <+: kept ++ (newer ++ item :: older) :=
    ⟨older, by simp⟩
  have hlength := (h.longest _ hrun (Int.not_lt.1 hfits)).length_le
  simp only [List.length_append, List.length_cons] at hlength
  omega

/-- What fits into less room can be found among what fits into more. -/
theorem fitting_fitting {a b : Int} (h : b ≤ a) (items : List (Item κ ν)) :
    fitting b (fitting a items) = fitting b items := by
  induction items generalizing a b with
  | nil => rfl
  | cons item items ih =>
    by_cases hb : item.footprint ≤ b
    · have ha : item.footprint ≤ a := by omega
      have hrest := ih (Int.sub_le_sub_right h item.footprint)
      rw [fitting, if_pos ha, fitting, if_pos hb, hrest, fitting, if_pos hb]
    · have hnone : fitting b (item :: items) = [] := if_neg hb
      rw [hnone, fitting]
      split
      · exact if_neg hb
      · rfl

/-- The last item is of no account if the sum does not fit. -/
theorem fitting_concat {room : Int} {items : List (Item κ ν)} {oldest : Item κ ν}
    (h : room < spaceIn (items ++ [oldest])) :
    fitting room (items ++ [oldest]) = fitting room items := by
  induction items generalizing room with
  | nil =>
    have hlarge : ¬oldest.footprint ≤ room := by
      rw [spaceIn_append, spaceIn_cons, spaceIn_nil] at h
      omega
    exact if_neg hlarge
  | cons item items ih =>
    rw [List.cons_append, spaceIn_cons] at h
    rw [List.cons_append, fitting, fitting, ih (by omega)]

/-! ## Popping -/

/-- The reference reduced to the items that fit into the room. Each item lost counts as an
eviction. -/
def keepFitting (r : Reference κ ν) (room : Int) : Reference κ ν :=
  { r with
    items := fitting room r.items
    counters := { r.counters with
      evictions := r.counters.evictions + (r.items.length - (fitting room r.items).length) } }

/-- The items lost to `keepFitting`, as they are logged, the oldest first. -/
def lostFitting (r : Reference κ ν) (room : Int) : List Event :=
  (r.items.drop (fitting room r.items).length).reverse.map fun item =>
    .evicted item.footprint item.stamp

theorem counters_keepFitting {r : Reference κ ν} {room : Int} {dropped : List (Item κ ν)}
    (h : fitting room r.items ++ dropped = r.items) :
    (r.keepFitting room).counters =
      { r.counters with evictions := r.counters.evictions + dropped.length } := by
  have hlength : r.items.length - (fitting room r.items).length = dropped.length := by
    have hsum := congrArg List.length h
    rw [List.length_append] at hsum
    omega
  rw [keepFitting, hlength]

theorem keepFitting_of_le {r : Reference κ ν} {room : Int} (h : r.total ≤ room)
    (hnonneg : ∀ item ∈ r.items, 0 ≤ item.footprint) :
    r.keepFitting room = r ∧ r.lostFitting room = [] := by
  have hfitting := fitting_of_le h hnonneg
  refine ⟨?_, ?_⟩
  · rw [keepFitting, hfitting, Nat.sub_self]
    rfl
  · rw [lostFitting, hfitting, List.drop_length]
    rfl

/-- Whether the last item is popped first does not matter if not everything fits. -/
theorem keepFitting_pop {r : Reference κ ν} {items : List (Item κ ν)} {oldest : Item κ ν}
    (hitems : r.items = items ++ [oldest]) {room : Int} (h : room < r.total) :
    r.pop.keepFitting room = r.keepFitting room ∧
      .evicted oldest.footprint oldest.stamp :: r.pop.lostFitting room = r.lostFitting room := by
  have hpop : r.pop.items = items := by simp [pop, hitems]
  have hfitting : fitting room r.items = fitting room items := by
    rw [total, hitems] at h
    rw [hitems, fitting_concat h]
  have hle : (fitting room items).length ≤ items.length :=
    (fitting_prefix_items room items).length_le
  refine ⟨?_, ?_⟩
  · have hcount : items.length + 1 - (fitting room items).length =
        1 + (items.length - (fitting room items).length) := by omega
    rw [keepFitting, keepFitting, hpop, hfitting, hitems, List.length_append, List.length_singleton,
      hcount, ← Nat.add_assoc]
    rfl
  · rw [lostFitting, lostFitting, hpop, hfitting, hitems, List.drop_append_of_le_length hle,
      List.reverse_concat]
    rfl

theorem popWhile_eq {r : Reference κ ν} (room : Int)
    (hnonneg : ∀ item ∈ r.items, 0 ≤ item.footprint) :
    r.popWhile (fun total => decide (room < total)) = (r.keepFitting room, r.lostFitting room) := by
  induction hitems : r.items using List.reverseRecOn generalizing r with
  | nil =>
    obtain ⟨_, limit, clock, counters⟩ := r
    obtain rfl : _ = [] := hitems
    exact popWhile_nil _ rfl
  | append_singleton items oldest ih =>
    by_cases hover : room < r.total
    · have hpop : r.pop.items = items := by simp [pop, hitems]
      have hrest := ih (fun item hitem => hnonneg item (List.dropLast_subset _ hitem)) hpop
      obtain ⟨hkeep, hlost⟩ := keepFitting_pop hitems hover
      rw [popWhile_concat _ hitems, if_pos (decide_eq_true hover), hrest, hkeep, hlost]
    · obtain ⟨hkeep, hlost⟩ := keepFitting_of_le (Int.not_lt.1 hover) hnonneg
      rw [popWhile_of_not_exceeds (decide_eq_false hover), hkeep, hlost]

/-! ## Operations that pop -/

/-- A value that is not too large comes to stand in front of what fits beside it. -/
theorem insertAbsent_of_le {r : Reference κ ν} {footprint : Int} (h : footprint ≤ r.limit)
    (hnonneg : ∀ item ∈ r.items, 0 ≤ item.footprint) (key : κ) (value : ν) :
    r.insertAbsent key value footprint =
      { reply := value
        after := (r.keepFitting (r.limit - footprint)).pushFront key value footprint
        events := r.lostFitting (r.limit - footprint) } := by
  have hover : (fun total => decide (r.limit < total + footprint)) =
      fun total => decide (r.limit - footprint < total) := by
    funext total
    exact decide_eq_decide.2 Int.sub_lt_iff.symm
  rw [insertAbsent, if_neg (Int.not_lt.2 h), hover, popWhile_eq _ hnonneg]

theorem setLimit_of_lt {r : Reference κ ν} {limit : Int} (h : limit < r.limit)
    (hnonneg : ∀ item ∈ r.items, 0 ≤ item.footprint) :
    r.setLimit limit =
      { reply := ()
        after := { r.keepFitting limit with limit }
        events := r.lostFitting limit ++
          [.limitLowered r.limit limit (r.items.length - (fitting limit r.items).length)] } := by
  rw [setLimit, if_pos h, popWhile_eq limit hnonneg]
  rfl

theorem items_setLimit {r : Reference κ ν} (hnonneg : ∀ item ∈ r.items, 0 ≤ item.footprint)
    (limit : Int) :
    (r.setLimit limit).after.items = (if limit < r.limit then fitting limit r.items else r.items) ∧
      (r.setLimit limit).after.counters.hits = r.counters.hits := by
  by_cases hlt : limit < r.limit
  · rw [setLimit_of_lt hlt hnonneg, if_pos hlt]
    exact ⟨rfl, rfl⟩
  · rw [Reference.setLimit, if_neg hlt, if_neg hlt]
    exact ⟨rfl, rfl⟩

variable [BEq κ]

variable [Footprint ν]

theorem WellFormed.without_nonneg {r : Reference κ ν} (h : r.WellFormed) (key : κ) :
    ∀ item ∈ (r.without key).items, 0 ≤ item.footprint := fun item hitem =>
  h.footprint_nonneg item (mem_others.1 hitem).1

variable [EquivBEq κ]

/-- Without the item of a key its footprint is free. -/
theorem WellFormed.total_without {r : Reference κ ν} (h : r.WellFormed) {key : κ}
    {item : Item κ ν} (hfind : r.find? key = some item) :
    (r.without key).total = r.total - item.footprint := by
  obtain ⟨hkey, xs, ys, hitems⟩ := exists_of_find? hfind
  have hdistinct := h.distinct
  rw [hitems] at hdistinct
  rw [total, total, without, hitems, hdistinct.others_middle hkey, spaceIn_append, spaceIn_append,
    spaceIn_cons]
  omega

/-- A value that is too large only takes the item of its key with it. -/
theorem WellFormed.put_of_lt {r : Reference κ ν} (h : r.WellFormed) (key : κ) {value : ν}
    (hlarge : r.limit < spaceOf value) :
    r.put key value =
      { reply := value
        after := { r.without key with counters := r.counters.rejection }
        events := [.rejected (spaceOf value) r.limit] } := by
  have hrefused : (r.without key).insertAbsent key value (spaceOf value) =
      { reply := value
        after := { r.without key with counters := r.counters.rejection }
        events := [.rejected (spaceOf value) r.limit] } := if_pos hlarge
  cases hfind : r.find? key with
  | none =>
    rw [put, hfind]
    exact hrefused
  | some item =>
    have htotal := h.total_without hfind
    have hrest : 0 ≤ (r.without key).total := spaceIn_nonneg (h.without_nonneg key)
    rw [put, hfind]
    exact (if_neg (by omega)).trans hrefused

/-- A value that is not too large comes to stand in front of what fits of the other items, under its
key or under the equal one that was stored. -/
theorem WellFormed.put_of_le {r : Reference κ ν} (h : r.WellFormed) (key : κ) {value : ν}
    (hsmall : spaceOf value ≤ r.limit) :
    ∃ key', (key' == key) = true ∧ r.put key value =
      { reply := value
        after := ((r.without key).keepFitting (r.limit - spaceOf value)).pushFront key' value
          (spaceOf value)
        events := (r.without key).lostFitting (r.limit - spaceOf value) } := by
  have hstored := insertAbsent_of_le (r := r.without key) hsmall (h.without_nonneg key) key value
  cases hfind : r.find? key with
  | none =>
    refine ⟨key, BEq.rfl, ?_⟩
    rw [put, hfind]
    exact hstored
  | some item =>
    by_cases hplace : r.total - item.footprint + spaceOf value ≤ r.limit
    · have htotal := h.total_without hfind
      have hfits : (r.without key).total ≤ r.limit - spaceOf value := by omega
      obtain ⟨hkeep, hlost⟩ := keepFitting_of_le hfits (h.without_nonneg key)
      refine ⟨item.key, (exists_of_find? hfind).1, ?_⟩
      rw [put, hfind, hkeep, hlost]
      exact if_pos hplace
    · refine ⟨key, BEq.rfl, ?_⟩
      rw [put, hfind]
      exact (if_neg hplace).trans hstored

end Reference

end BudgetCache
