import BudgetCache.Proofs.CacheHistory
import BudgetCache.Proofs.Reachable
import BudgetCache.Proofs.Steps
import BudgetCache.Script.Artifact
import Mathlib

/-!
# What storing a value leaves

A value that is larger than the limit takes the entry of its key with it and nothing else. Any other
value comes to stand in front, under a stamp that no entry had before, and of the other entries the
longest newest run stays that fits beside it. That holds whether the value was put in the place of
an old one, stored again after the old entry was dropped, or stored under a new key, and also for a
cache that was over its limit before.
-/

namespace BudgetCache

namespace Reference

variable {κ ν : Type} [BEq κ] [Footprint ν] [EquivBEq κ]

theorem WellFormed.put_refused {r : Reference κ ν} (h : r.WellFormed) (key : κ) {value : ν}
    (hlarge : r.limit < spaceOf value) :
    (r.put key value).after.items = others key r.items ∧
      (r.put key value).after.find? key = none ∧
      (r.put key value).after.counters = r.counters.rejection := by
  rw [h.put_of_lt key hlarge]
  refine ⟨rfl, ?_, rfl⟩
  rw [find?_eq_none_iff]
  intro item hitem
  exact (mem_others.1 hitem).2

/-- The other items fall into those that fit beside the value and those that are evicted. -/
theorem WellFormed.put_stored {r : Reference κ ν} (h : r.WellFormed) (key : κ) {value : ν}
    (hsmall : spaceOf value ≤ r.limit) :
    ∃ stored kept dropped, (stored == key) = true ∧ others key r.items = kept ++ dropped ∧
      Longest (r.limit - spaceOf value) (others key r.items) kept ∧
      (r.put key value).after.items = ⟨stored, value, spaceOf value, r.clock⟩ :: kept ∧
      (r.put key value).after.counters =
        { r.counters with evictions := r.counters.evictions + dropped.length } := by
  obtain ⟨stored, hstored, hput⟩ := h.put_of_le key hsmall
  have hlongest : Longest (r.limit - spaceOf value) (others key r.items)
      (fitting (r.limit - spaceOf value) (others key r.items)) :=
    longest_fitting (Int.sub_nonneg.2 hsmall) (h.without_nonneg key)
  obtain ⟨dropped, hdropped⟩ := hlongest.initial
  refine ⟨stored, _, dropped, hstored, hdropped.symm, hlongest, ?_, ?_⟩
  · rw [hput]
    rfl
  · rw [hput]
    exact counters_keepFitting (r := r.without key) hdropped

end Reference

namespace Table

variable {κ ν : Type} [BEq κ] [Hashable κ] [Footprint ν] [EquivBEq κ] [LawfulHashable κ]

omit [EquivBEq κ] [LawfulHashable κ] in
theorem reply_put (t : Table κ ν) (key : κ) (value : ν) : (t.put key value).reply = value := by
  unfold put
  dsimp only
  split
  · split <;> rfl
  · rfl

/-- The clock never goes back. -/
theorem Sound.clock_le_run {t : Table κ ν} (h : t.Sound) (ops : List (Operation κ ν)) :
    t.chain.clock ≤ (t.run ops).after.chain.clock := by
  induction ops generalizing t with
  | nil => exact Nat.le_refl _
  | cons op ops ih =>
    obtain ⟨touched, kept, hstep⟩ := h.wellFormed.exists_step op
    have hclock : (t.apply op).after.view.clock = t.view.clock + touched.toList.length := by
      rw [(h.apply op).view, hstep.clock]
    have hfirst : t.chain.clock ≤ (t.apply op).after.chain.clock := by
      show t.view.clock ≤ (t.apply op).after.view.clock
      omega
    exact Nat.le_trans hfirst (ih (h.apply op).sound)

/-- The next stamp is larger than that of any entry at any earlier moment. -/
theorem Sound.stamp_lt_run {t : Table κ ν} (h : t.Sound) (ops : List (Operation κ ν)) :
    ∀ entry ∈ t.chain.entries, entry.stamp < (t.run ops).after.chain.clock := by
  intro entry hentry
  have hbelow := h.wellFormed.below_clock entry.item (List.mem_map_of_mem hentry)
  exact Nat.lt_of_lt_of_le hbelow (h.clock_le_run ops)

end Table

namespace Cache

variable {κ ν : Type} [BEq κ] [Hashable κ] [Footprint ν] [EquivBEq κ] [LawfulHashable κ]

/-- A value that is too large takes only the entry of its key away. Any other value is the newest
entry afterwards, and of the other entries, unchanged, there remains the longest newest run that
fits beside it. Each of the rest, which is evicted, would take the cache over its limit together
with all that is newer. -/
theorem Reachable.put_keeps_longest {c : Cache κ ν} (h : c.Reachable) (key : κ) (value : ν) :
    let others := Reference.others key (c.chain.entries.map Entry.item)
    let o := c.apply (.put key value)
    let items := o.after.chain.entries.map Entry.item
    o.reply = .echo value ∧
      (c.limit < spaceOf value →
        items = others ∧ o.after.contains key = false ∧
        o.after.counters = { c.counters with rejections := c.counters.rejections + 1 }) ∧
      (spaceOf value ≤ c.limit →
        (∃ stored kept dropped, (stored == key) = true ∧ others = kept ++ dropped ∧
          Reference.Longest (c.limit - spaceOf value) others kept ∧
          items = ⟨stored, value, spaceOf value, c.chain.clock⟩ :: kept ∧
          o.after.counters =
            { c.counters with evictions := c.counters.evictions + dropped.length } ∧
          o.after.used = Reference.spaceIn kept + spaceOf value ∧
          ∀ newer item older, dropped = newer ++ item :: older →
            c.limit < Reference.spaceIn (kept ++ newer ++ [item]) + spaceOf value) ∧
        ∀ (earlier : Cache κ ν) (ops : List (Operation κ ν)), earlier.Reachable →
          (earlier.toTable.run ops).after = c.toTable →
          ∀ entry ∈ earlier.chain.entries, entry.stamp < c.chain.clock) := by
  intro others o items
  have hsound := h.ready.sound
  obtain ⟨-, hview, -, hafter⟩ := hsound.put key value
  have hitems : items = (c.view.put key value).after.items := congrArg Reference.items hview
  have hcounters : o.after.counters = (c.view.put key value).after.counters :=
    congrArg Reference.counters hview
  refine ⟨congrArg Reply.echo (c.toTable.reply_put key value), ?_, ?_⟩
  · intro hlarge
    obtain ⟨hrest, hnone, hrejected⟩ := hsound.wellFormed.put_refused key hlarge
    refine ⟨hitems.trans hrest, ?_, hcounters.trans hrejected⟩
    have hcontains := hafter.contains key
    rw [hview, Reference.contains, hnone] at hcontains
    exact hcontains
  · intro hsmall
    obtain ⟨stored, kept, dropped, hstored, hsplit, hlongest, hnow, hcount⟩ :=
      hsound.wellFormed.put_stored key hsmall
    refine ⟨⟨stored, kept, dropped, hstored, hsplit, hlongest, hitems.trans hnow,
      hcounters.trans hcount, ?_, ?_⟩, ?_⟩
    · have hused := hafter.used
      rw [hview, Reference.total, hnow, Reference.spaceIn_cons, Int.add_comm] at hused
      exact hused
    · rintro newer item older rfl
      rw [hsplit] at hlongest
      have hover := hlongest.lt_spaceIn
      show c.view.limit < _
      omega
    · intro earlier ops hearlier hrun entry hentry
      rw [← hrun]
      exact hearlier.ready.sound.stamp_lt_run ops entry hentry

/-- A copy that is over its limit takes no value of three units. One of a single unit leaves room
for one of the two other entries. -/
theorem put_keeps_longest_copy :
    let source : Cache Nat Artifact :=
      (((empty "demo" 3).withRecipe fun _ => Fresh.unused 2).run
        [.put 1 ⟨"a", 1⟩, .put 2 ⟨"b", 1⟩, .put 3 ⟨"c", 1⟩]).after
    let c := source.copy
    let others : List (Item Nat Artifact) := [⟨3, ⟨"c", 1⟩, 1, 2⟩, ⟨1, ⟨"a", 1⟩, 1, 0⟩]
    c.limit = 2 ∧ c.used = 3 ∧
      (c.apply (.put 2 ⟨"x", 3⟩)).after.chain.entries.map Entry.item = others ∧
      ∃ stored kept dropped, (stored == 2) = true ∧ others = kept ++ dropped ∧
        Reference.Longest 1 others kept ∧
        (c.apply (.put 2 ⟨"y", 1⟩)).after.chain.entries.map Entry.item =
          ⟨stored, ⟨"y", 1⟩, 1, 3⟩ :: kept := by
  intro source c others
  have hempty : (empty "demo" 3 : Cache Nat Artifact).Reachable := .empty "demo" 3
  have hrecipe := hempty.withRecipe (fun _ => empty "fresh" 2) (fun _ => .empty "fresh" 2)
    (fun _ => by cbv) (fun _ => Fresh.unused 2) fun _ => rfl
  have hc : c.Reachable :=
    (((hrecipe.apply (.put 1 ⟨"a", 1⟩)).apply (.put 2 ⟨"b", 1⟩)).apply (.put 3 ⟨"c", 1⟩)).copy
  have hlimit : c.limit = 2 := by cbv
  have hothers : Reference.others 2 (c.chain.entries.map Entry.item) = others := by cbv
  have hclock : c.chain.clock = 3 := by cbv
  obtain ⟨-, hlarge, -⟩ := hc.put_keeps_longest 2 ⟨"x", 3⟩
  obtain ⟨-, -, hsmall⟩ := hc.put_keeps_longest 2 ⟨"y", 1⟩
  obtain ⟨hkept, -, -⟩ := hlarge (by rw [hlimit]; decide)
  obtain ⟨⟨stored, kept, dropped, hstored, hsplit, hlongest, hitems, -⟩, -⟩ :=
    hsmall (by rw [hlimit]; decide)
  rw [hothers] at hkept hsplit hlongest
  rw [hlimit] at hlongest
  rw [hclock] at hitems
  exact ⟨hlimit, by cbv, hkept, stored, kept, dropped, hstored, hsplit, hlongest, hitems⟩

end Cache

end BudgetCache
