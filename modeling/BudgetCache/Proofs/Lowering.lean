import BudgetCache.Proofs.Fitting
import BudgetCache.Proofs.SlotLayout
import Mathlib

/-!
# What another limit leaves

A limit that is not lower changes nothing else. A lower one leaves the longest newest run of entries
that stays within it. Of two lower limits, one after the other, only the last can be told
afterwards, since what fits into less room can be found among what fits into more. The first limit
may also be higher, unless the cache was over its limit: a limit that evicts nothing in such a cache
may be lower than the one in between, and then it does evict.
-/

namespace BudgetCache

namespace Reference

variable {κ ν : Type}

theorem keepFitting_keepFitting (r : Reference κ ν) {a b : Int} (h : b ≤ a) :
    (r.keepFitting a).keepFitting b = r.keepFitting b := by
  have hfitting := fitting_fitting h r.items
  have hfirst := (fitting_prefix_items a r.items).length_le
  have hsecond := (fitting_prefix_items b (fitting a r.items)).length_le
  have hcount : r.counters.evictions + (r.items.length - (fitting a r.items).length) +
      ((fitting a r.items).length - (fitting b r.items).length) =
        r.counters.evictions + (r.items.length - (fitting b r.items).length) := by
    rw [hfitting] at hsecond
    omega
  simp only [keepFitting, hfitting, hcount]

/-- Nothing is lost to a limit that is not lower, if the items stayed within the old one. -/
theorem after_setLimit_eq {r : Reference κ ν} (hnonneg : ∀ item ∈ r.items, 0 ≤ item.footprint)
    {limit : Int} (h : r.limit ≤ limit → r.items = [] ∨ r.total ≤ limit) :
    (r.setLimit limit).after = { r.keepFitting limit with limit } := by
  by_cases hlt : limit < r.limit
  · rw [setLimit_of_lt hlt hnonneg]
  · have hkeep : r.keepFitting limit = r := by
      rcases h (Int.not_lt.1 hlt) with hnil | hle
      · rw [keepFitting, hnil]
        obtain ⟨items, _, _, _⟩ := r
        obtain rfl : items = [] := hnil
        rfl
      · exact (keepFitting_of_le hle hnonneg).1
    rw [Reference.setLimit, if_neg hlt, hkeep]

/-- Only the last of two limits matters. -/
theorem after_setLimit_setLimit {r : Reference κ ν}
    (hnonneg : ∀ item ∈ r.items, 0 ≤ item.footprint) {a b : Int} (hba : b ≤ a)
    (h : r.items = [] ∨ r.total ≤ r.limit ∨ a ≤ r.limit) :
    ((r.setLimit a).after.setLimit b).after = (r.setLimit b).after := by
  -- the limit that is in force evicts nothing, not even from items that are over it
  by_cases hsame : a = r.limit
  · have hnothing : (r.setLimit a).after = r := by
      rw [Reference.setLimit, if_neg (by omega), hsame]
    rw [hnothing]
  · have hwithin : ∀ limit, limit ≤ a → r.limit ≤ limit → r.items = [] ∨ r.total ≤ limit := by
      intro limit hlimit hraised
      rcases h with hnil | hle | hlower
      · exact .inl hnil
      · exact .inr (Int.le_trans hle hraised)
      · omega
    have hfirst := after_setLimit_eq hnonneg (hwithin a (Int.le_refl a))
    have hsecond : ((r.setLimit a).after.setLimit b).after =
        { (r.keepFitting a).keepFitting b with limit := b } := by
      rw [hfirst]
      refine after_setLimit_eq ?_ ?_
      · intro item hitem
        exact hnonneg item ((fitting_prefix_items a r.items).subset hitem)
      · intro hraised
        have hkept : fitting a r.items = [] ∨ spaceIn (fitting a r.items) ≤ a :=
          fitting_eq_nil_or_le hnonneg
        rcases hkept with hnil | hfits
        · exact .inl hnil
        · exact .inr (Int.le_trans hfits hraised)
    rw [hsecond, keepFitting_keepFitting r hba, after_setLimit_eq hnonneg (hwithin b hba)]

/-- The items fall into those that stay within the lower limit and those that are evicted. -/
theorem setLimit_lowered {r : Reference κ ν} (hnonneg : ∀ item ∈ r.items, 0 ≤ item.footprint)
    {limit : Int} (h : limit < r.limit) :
    ∃ kept dropped, r.items = kept ++ dropped ∧ (0 ≤ limit → Longest limit r.items kept) ∧
      (limit < 0 → kept = []) ∧
      (r.setLimit limit).after =
        { r with
          items := kept
          limit
          counters := { r.counters with
            evictions := r.counters.evictions + dropped.length } } := by
  obtain ⟨dropped, hdropped⟩ := fitting_prefix_items limit r.items
  refine ⟨fitting limit r.items, dropped, hdropped.symm, ?_, ?_, ?_⟩
  · intro hroom
    exact longest_fitting hroom hnonneg
  · intro hneg
    exact fitting_of_neg hneg hnonneg
  · rw [setLimit_of_lt h hnonneg, ← counters_keepFitting hdropped]
    rfl

end Reference

namespace Cache

variable {κ ν : Type} [BEq κ] [Hashable κ] [Footprint ν]

/-- A limit that is not lower changes nothing else. -/
theorem apply_setLimit_of_le {c : Cache κ ν} {limit : Int} (h : c.limit ≤ limit) :
    (c.apply (.setLimit limit)).after = { c with budget := { c.budget with limit } } := by
  unfold apply onTable Table.apply Table.setLimit
  simp only [if_neg (Int.not_lt.2 h)]
  rfl

variable [EquivBEq κ] [LawfulHashable κ]

/-- A limit that is not lower changes nothing else, and a lower one leaves the longest newest run of
entries that stays within it, unchanged. Of two limits, one after the other and the second not
higher, only the second can be told afterwards if the cache was within its limit at first, or if the
first was not higher than that. -/
theorem Reachable.setLimit_keeps_longest {c : Cache κ ν} (h : c.Reachable) :
    let items := c.chain.entries.map Entry.item
    (∀ limit, c.limit ≤ limit →
      (c.apply (.setLimit limit)).after = { c with budget := { c.budget with limit } }) ∧
    (∀ limit, limit < c.limit →
      let after := (c.apply (.setLimit limit)).after
      ∃ kept dropped, items = kept ++ dropped ∧
        (0 ≤ limit → Reference.Longest limit items kept) ∧ (limit < 0 → kept = []) ∧
        after.chain.entries.map Entry.item = kept ∧
        after.counters =
          { c.counters with evictions := c.counters.evictions + dropped.length } ∧
        after.limit = limit ∧ after.used = Reference.spaceIn kept ∧
        after.chain.clock = c.chain.clock) ∧
    ∀ a b, b ≤ a → c.isEmpty = true ∨ c.used ≤ c.limit ∨ a ≤ c.limit →
      ((c.apply (.setLimit a)).after.apply (.setLimit b)).after.toTable.ShowsSame
        (c.apply (.setLimit b)).after.toTable := by
  intro items
  have hready := h.ready
  have hsound := hready.sound
  have hnonneg := hsound.wellFormed.footprint_nonneg
  have hview : ∀ {d : Cache κ ν}, d.Ready → ∀ limit,
      (d.apply (.setLimit limit)).after.view = (d.view.setLimit limit).after :=
    fun hd limit => (hd.sound.setLimit limit).view
  refine ⟨?_, ?_, ?_⟩
  · intro limit hraised
    exact apply_setLimit_of_le hraised
  · intro limit hlower after
    obtain ⟨kept, dropped, hsplit, hlongest, hneg, hlowered⟩ :=
      Reference.setLimit_lowered hnonneg hlower
    have hafter : after.view = _ := (hview hready limit).trans hlowered
    have hused : after.used = after.view.total := (hsound.setLimit limit).sound.used
    rw [hafter] at hused
    exact ⟨kept, dropped, hsplit, hlongest, hneg, congrArg Reference.items hafter,
      congrArg Reference.counters hafter, congrArg Reference.limit hafter, hused,
      congrArg Reference.clock hafter⟩
  · intro a b hba hwithin
    have hshows := hsound.showsAs
    have hreference : c.view.items = [] ∨ c.view.total ≤ c.view.limit ∨ a ≤ c.view.limit := by
      rw [hshows.isEmpty, List.isEmpty_iff, hshows.used] at hwithin
      exact hwithin
    have hsame : SameButSlots ((c.apply (.setLimit a)).after.apply (.setLimit b)).after
        (c.apply (.setLimit b)).after := by
      refine ⟨(hready.apply _).apply _, hready.apply _, ?_, rfl, rfl⟩
      rw [hview (hready.apply _), hview hready, hview hready]
      exact Reference.after_setLimit_setLimit hnonneg hba hreference
    obtain ⟨-, hresult, -⟩ := hsame.indistinguishable _ _ .start
    exact hresult

/-- A copy that is over its limit and its source that is not. To the copy a higher limit in between
makes a difference. -/
theorem setLimit_keeps_longest_copy :
    let source : Cache Nat String :=
      (((empty "demo" 3).withRecipe fun _ => Fresh.unused 2).run
        [.put 1 "a", .put 2 "b", .put 3 "c"]).after
    let c := source.copy
    let items : List (Item Nat String) := [⟨3, "c", 1, 2⟩, ⟨2, "b", 1, 1⟩, ⟨1, "a", 1, 0⟩]
    c.limit = 2 ∧ c.used = 3 ∧
      (c.apply (.setLimit 4)).after = { c with budget := { c.budget with limit := 4 } } ∧
      (∃ kept dropped, items = kept ++ dropped ∧ Reference.Longest 1 items kept ∧
        (c.apply (.setLimit 1)).after.chain.entries.map Entry.item = kept) ∧
      ((c.apply (.setLimit 1)).after.apply (.setLimit 0)).after.toTable.ShowsSame
        (c.apply (.setLimit 0)).after.toTable ∧
      ((source.apply (.setLimit 5)).after.apply (.setLimit 2)).after.toTable.ShowsSame
        (source.apply (.setLimit 2)).after.toTable ∧
      ((c.apply (.setLimit 3)).after.apply (.setLimit 2)).after.used = 2 ∧
      (c.apply (.setLimit 2)).after.used = 3 := by
  intro source c items
  have hempty : (empty "demo" 3 : Cache Nat String).Reachable := .empty "demo" 3
  have hrecipe := hempty.withRecipe (fun _ => empty "fresh" 2) (fun _ => .empty "fresh" 2)
    (fun _ => by cbv) (fun _ => Fresh.unused 2) fun _ => rfl
  have hsource : source.Reachable :=
    ((hrecipe.apply (.put 1 "a")).apply (.put 2 "b")).apply (.put 3 "c")
  have hlimit : c.limit = 2 := by cbv
  have hitems : c.chain.entries.map Entry.item = items := by cbv
  obtain ⟨-, -, hpath⟩ := hsource.setLimit_keeps_longest
  obtain ⟨hraise, hlower, hpath'⟩ := hsource.copy.setLimit_keeps_longest
  obtain ⟨kept, dropped, hsplit, hlongest, -, hkept, -⟩ := hlower 1 (by rw [hlimit]; decide)
  rw [hitems] at hsplit hlongest
  refine ⟨hlimit, by cbv, hraise 4 (by rw [hlimit]; decide),
    ⟨kept, dropped, hsplit, hlongest (by decide), hkept⟩, ?_, ?_, by cbv, by cbv⟩
  · exact hpath' 1 0 (by decide) (.inr (.inr (by rw [hlimit]; decide)))
  · have hused : source.used = 3 := by cbv
    have hwithin : source.limit = 3 := by cbv
    exact hpath 5 2 (by decide) (.inr (.inl (by rw [hused, hwithin])))

end Cache

end BudgetCache
