import BudgetCache.Proofs.Evictions
import BudgetCache.Proofs.Reachable

/-!
# Evictions go by age

Over a whole history the stamps of the evicted entries increase, whatever happens between two
evictions. The invariant is a bound: a number that is above neither the clock nor any stamp in the
table stays so for good, because a touch takes its stamp from the clock and nothing else gives one.
An eviction drops the smallest stamp, so what follows is bounded by the next number.
-/

namespace BudgetCache

namespace Reference

variable {κ ν : Type}

/-- No item is older than `m`, and none that is touched later will be. -/
structure Since (m : Nat) (r : Reference κ ν) : Prop where
  items : ∀ item ∈ r.items, m ≤ item.stamp
  clock : m ≤ r.clock

variable [BEq κ]

theorem Step.since {r : Reference κ ν} {op : Operation κ ν}
    {o : Outcome (Reference κ ν) (Reply κ ν)} {touched : Option (Item κ ν)}
    {kept : List (Item κ ν)} (hstep : r.Step op o touched kept) {m : Nat} (h : r.Since m) :
    o.after.Since m := by
  have hclock := hstep.clock
  refine ⟨fun item hitem => ?_, ?_⟩
  · rw [hstep.items] at hitem
    rcases List.mem_append.1 hitem with hmem | hmem
    · rw [(hstep.stamp item (Option.mem_toList.1 hmem)).1]
      exact h.clock
    · exact h.items item (hstep.sublist.subset hmem)
  · rw [hclock]
    exact Nat.le_trans h.clock (Nat.le_add_right _ _)

variable [Footprint ν]

/-- The oldest item bounds the others. -/
theorem WellFormed.since_oldest {r : Reference κ ν} (h : r.WellFormed) {oldest : Item κ ν}
    (holdest : r.items.getLast? = some oldest) : r.Since oldest.stamp := by
  obtain ⟨items, hitems⟩ := List.getLast?_eq_some_iff.1 holdest
  have hdescending := h.descending
  rw [hitems, List.pairwise_append] at hdescending
  have hclock := h.below_clock oldest (by simp [hitems])
  refine ⟨fun item hitem => ?_, Nat.le_of_lt hclock⟩
  rw [hitems] at hitem
  rcases List.mem_append.1 hitem with hmem | hmem
  · exact Nat.le_of_lt (hdescending.2.2 item hmem oldest List.mem_cons_self)
  · rw [List.mem_singleton.1 hmem]

end Reference

namespace Table

variable {κ ν : Type} [BEq κ] [Hashable κ] [Footprint ν] [EquivBEq κ] [LawfulHashable κ]

/-- One operation evicts entries of increasing stamps, each of them the oldest of its moment, and
all of them older than what is there after the operation. -/
structure ByAge (t : Table κ ν) (op : Operation κ ν) : Prop where
  increasing : ((t.evictions op).map (·.entry.stamp)).Pairwise (· < ·)
  present : ∀ e ∈ t.evictions op, e.entry.item ∈ t.view.items
  oldest : ∀ e ∈ t.evictions op, e.after.view.Since (e.entry.stamp + 1)
  after : ∀ e ∈ t.evictions op, (t.apply op).after.view.Since (e.entry.stamp + 1)

theorem Sound.byAge {t : Table κ ν} (h : t.Sound) (op : Operation κ ν) : t.ByAge op := by
  obtain ⟨touched, kept, base, hstep, hsublist, hclock, htrace⟩ := h.exists_evictedFrom op
  have hdescending := h.wellFormed.descending.sublist hsublist
  have hbelow : ∀ item ∈ base.items, item.stamp < t.view.clock := fun item hitem =>
    h.wellFormed.below_clock item (hsublist.subset hitem)
  have hmem : ∀ e ∈ t.evictions op, e.entry.item ∈ base.items := by
    intro e he
    rw [htrace.items]
    exact List.mem_append_right kept (List.mem_reverse.2 (List.mem_map_of_mem he))
  constructor
  case increasing =>
    rw [htrace.items, List.pairwise_append, List.pairwise_reverse, List.pairwise_map]
      at hdescending
    exact List.pairwise_map.2 hdescending.2.1
  case present => exact fun e he => hsublist.subset (hmem e he)
  case oldest =>
    intro e he
    obtain ⟨hinitial, hsame⟩ := htrace.after e he
    have hlater := hdescending.sublist hinitial.sublist
    rw [List.pairwise_append] at hlater
    refine ⟨fun item hitem => hlater.2.2 item hitem _ List.mem_cons_self, ?_⟩
    rw [hsame, hclock]
    exact hbelow _ (hmem e he)
  case after =>
    intro e he
    have hmatches := h.apply op
    rw [htrace.items, List.pairwise_append] at hdescending
    have hkept : ∀ item ∈ kept, e.entry.stamp < item.stamp := fun item hitem =>
      hdescending.2.2 item hitem _ (List.mem_reverse.2 (List.mem_map_of_mem he))
    have hpast : e.entry.stamp < t.view.clock := hbelow _ (hmem e he)
    rw [hmatches.view]
    refine ⟨fun item hitem => ?_, ?_⟩
    · rw [hstep.items] at hitem
      rcases List.mem_append.1 hitem with htouched | hrest
      · rw [(hstep.stamp item (Option.mem_toList.1 htouched)).1]
        exact hpast
      · exact hkept item hrest
    · rw [hstep.clock]
      exact Nat.le_trans hpast (Nat.le_add_right _ _)

theorem Sound.since_apply {t : Table κ ν} (h : t.Sound) {m : Nat} (hm : t.view.Since m)
    (op : Operation κ ν) : (t.apply op).after.view.Since m := by
  obtain ⟨touched, kept, hstep⟩ := h.wellFormed.exists_step op
  rw [(h.apply op).view]
  exact hstep.since hm

theorem Sound.since_run {t : Table κ ν} (h : t.Sound) {m : Nat} (hm : t.view.Since m)
    (ops : List (Operation κ ν)) : (t.run ops).after.view.Since m := by
  induction ops generalizing t with
  | nil => exact hm
  | cons op ops ih => exact ih (h.apply op).sound (h.since_apply hm op)

/-- The evictions of a history respect every bound, and each of them sets one for what follows. -/
theorem Sound.evictionsIn_since {t : Table κ ν} (h : t.Sound) (ops : List (Operation κ ν)) :
    ∀ e ∈ t.evictionsIn ops, (∀ m, t.view.Since m → m ≤ e.entry.stamp) ∧
      e.after.view.Since (e.entry.stamp + 1) ∧
      (t.run ops).after.view.Since (e.entry.stamp + 1) := by
  induction ops generalizing t with
  | nil => exact fun e he => (List.not_mem_nil he).elim
  | cons op ops ih =>
    have hsound := (h.apply op).sound
    have hage := h.byAge op
    intro e he
    rcases List.mem_append.1 he with hnow | hlater
    · refine ⟨fun m hm => hm.items _ (hage.present e hnow), hage.oldest e hnow, ?_⟩
      exact hsound.since_run (hage.after e hnow) ops
    · obtain ⟨hbound, holdest, hafter⟩ := ih hsound e hlater
      exact ⟨fun m hm => hbound m (h.since_apply hm op), holdest, hafter⟩

theorem Sound.evictionsIn_increasing {t : Table κ ν} (h : t.Sound) (ops : List (Operation κ ν)) :
    ((t.evictionsIn ops).map (·.entry.stamp)).Pairwise (· < ·) := by
  induction ops generalizing t with
  | nil => exact List.Pairwise.nil
  | cons op ops ih =>
    have hsound := (h.apply op).sound
    have hage := h.byAge op
    rw [evictionsIn, List.map_append, List.pairwise_append]
    refine ⟨hage.increasing, ih hsound, ?_⟩
    simp only [List.mem_map]
    rintro _ ⟨e, he, rfl⟩ _ ⟨e', he', rfl⟩
    exact (hsound.evictionsIn_since ops e' he').1 _ (hage.after e he)

/-- The oldest stamp of a table that is not empty bounds everything in it. -/
theorem Sound.since_oldestStamp {t : Table κ ν} (h : t.Sound) (hne : t.isEmpty = false) :
    t.view.Since t.oldestStamp ∧ ∀ m, t.view.Since m → m ≤ t.oldestStamp := by
  have hshows := h.showsAs
  rw [hshows.isEmpty] at hne
  cases holdest : t.view.items.getLast? with
  | none =>
    rw [List.getLast?_eq_none_iff.1 holdest] at hne
    cases hne
  | some oldest =>
    have hstamp : t.oldestStamp = oldest.stamp := by
      rw [hshows.oldestStamp, holdest]
      rfl
    rw [hstamp]
    exact ⟨h.wellFormed.since_oldest holdest, fun m hm =>
      hm.items oldest (List.mem_of_getLast? holdest)⟩

end Table

namespace Cache

variable {κ ν : Type} [BEq κ] [Hashable κ] [Footprint ν] [EquivBEq κ] [LawfulHashable κ]

/-- The evictions of a history, which are those that it logs and counts, go by age. Their stamps
increase over the whole history. An evicted entry is older than every entry right after the
eviction, than every entry at any later point, whether it was there before or was touched since, and
than the clock. So the oldest stamp never decreases between two points at which the cache is not
empty. -/
theorem Reachable.evictions_by_age {c : Cache κ ν} (h : c.Reachable) (ops : List (Operation κ ν)) :
    (c.evictionsIn ops).map Eviction.event = (c.run ops).events.filter Event.isEviction ∧
      (c.run ops).after.counters.evictions = c.counters.evictions + (c.evictionsIn ops).length ∧
      ((c.evictionsIn ops).map (·.entry.stamp)).Pairwise (· < ·) ∧
      (∀ e ∈ c.evictionsIn ops, e.entry.stamp < e.after.chain.clock ∧
        ∀ entry ∈ e.after.chain.entries, e.entry.stamp < entry.stamp) ∧
      (∀ m n, m ≤ n → ∀ e ∈ c.evictionsIn (ops.take m),
        e.entry.stamp < (c.run (ops.take n)).after.chain.clock ∧
        ∀ entry ∈ (c.run (ops.take n)).after.chain.entries, e.entry.stamp < entry.stamp) ∧
      ∀ m n, m ≤ n → (c.run (ops.take m)).after.isEmpty = false →
        (c.run (ops.take n)).after.isEmpty = false →
        (c.run (ops.take m)).after.oldestStamp ≤ (c.run (ops.take n)).after.oldestStamp := by
  have hsound := h.ready.sound
  have hrun : ∀ n, (c.toTable.run (ops.take n)).after.Sound := fun n =>
    (hsound.run (ops.take n)).sound
  have hsplit : ∀ m n, m ≤ n → ∃ more, (c.toTable.run (ops.take n)).after =
      ((c.toTable.run (ops.take m)).after.run more).after := by
    intro m n hmn
    obtain ⟨more, hmore⟩ := List.take_prefix_take_left (l := ops) hmn
    rw [← hmore, Table.run_append]
    exact ⟨more, rfl⟩
  obtain ⟨hevents, hcount⟩ := c.toTable.evictionsIn_eq ops
  simp only [run_eq_onTable, events_onTable, toTable_onTable]
  refine ⟨hevents.symm, hcount, hsound.evictionsIn_increasing ops, fun e he => ?_,
    fun m n hmn e he => ?_, fun m n hmn hm hn => ?_⟩
  · obtain ⟨-, hsince, -⟩ := hsound.evictionsIn_since ops e he
    exact ⟨hsince.clock, fun entry hentry => hsince.items entry.item (List.mem_map_of_mem hentry)⟩
  · obtain ⟨-, -, hsince⟩ := hsound.evictionsIn_since (ops.take m) e he
    obtain ⟨more, hmore⟩ := hsplit m n hmn
    have hlater := (hrun m).since_run hsince more
    rw [hmore]
    exact ⟨hlater.clock, fun entry hentry => hlater.items entry.item (List.mem_map_of_mem hentry)⟩
  · obtain ⟨more, hmore⟩ := hsplit m n hmn
    obtain ⟨hsince, -⟩ := (hrun m).since_oldestStamp hm
    have hlater := (hrun m).since_run hsince more
    rw [← hmore] at hlater
    exact ((hrun n).since_oldestStamp hn).2 _ hlater

/-- Two entries are evicted, one by a value that needs their room and one by a lower limit, with a
lookup and an entry removed in between. -/
theorem evictions_by_age_three :
    let c : Cache Nat String := empty "demo" 3
    let ops : List (Operation Nat String) := [.put 1 "a", .put 2 "b", .put 3 "c", .get 1,
      .put 4 "d", .remove 3, .put 2 "e", .setLimit 2, .clear, .put 5 "f"]
    ((c.evictionsIn ops).map (·.entry.stamp)).Pairwise (· < ·) ∧
      (c.evictionsIn ops).map (·.entry.stamp) = [1, 3] ∧
      (c.run (ops.take 6)).after.oldestStamp ≤ (c.run ops).after.oldestStamp := by
  intro c ops
  have hempty : c.Reachable := .empty "demo" 3
  obtain ⟨-, -, hincreasing, -, -, holdest⟩ := hempty.evictions_by_age ops
  have hshown : ∀ n, (c.run (ops.take n)).after.isEmpty =
      (c.run (ops.take n)).after.view.items.isEmpty := by
    intro n
    rw [run_eq_onTable]
    exact (hempty.ready.sound.run (ops.take n)).sound.showsAs.isEmpty
  refine ⟨hincreasing, by cbv, ?_⟩
  exact holdest 6 10 (by decide) ((hshown 6).trans (by cbv)) ((hshown 10).trans (by cbv))

end Cache

end BudgetCache
