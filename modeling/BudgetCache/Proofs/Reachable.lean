import BudgetCache.Proofs.Copying
import Mathlib

/-!
# Reachable caches

A cache is reachable if it comes about by making an empty cache, operating on it, giving it recipes
and copying it, in any order. A recipe has to make empty tables of reachable caches, but they may
have been used before and may have any limit, so that a copy may be over its limit. In every
reachable cache the index, the chain, the running sum and the clock fit together.
-/

namespace BudgetCache

namespace Table

variable {κ ν : Type} [BEq κ] [Hashable κ] [Footprint ν]

/-- The index, the chain, the budget and the clock of a table fit together. -/
structure Consistent (t : Table κ ν) : Prop where
  /-- The index consists of the keys of the linked entries, each with the slot of its entry. -/
  index : t.index.toList.Perm (t.chain.toList.map fun cell => (cell.2.key, cell.1))
  /-- The index leads from a key to the slot of the entry that has an equal key. -/
  lookup : ∀ key slot, t.index[key]? = some slot ↔
    ∃ entry, (slot, entry) ∈ t.chain.toList ∧ (entry.key == key) = true
  /-- The linked entries are those in the slots. -/
  linked : ∀ slot entry, (slot, entry) ∈ t.chain.toList ↔ t.chain.get? slot = some entry
  /-- No slot is visited twice. -/
  slots : (t.chain.toList.map (·.1)).Nodup
  /-- No key occurs in two entries. -/
  distinct : t.chain.entries.Pairwise fun a b => (a.key == b.key) = false
  /-- There are as many keys as entries are counted. -/
  keys : t.index.size = t.chain.size
  /-- The walk from the newest entry meets as many entries as are counted. -/
  forward : t.chain.toList.length = t.chain.size
  /-- The walk from the oldest entry meets as many entries as are counted. -/
  backward : t.chain.fromOldest.length = t.chain.size
  /-- The walk from the newest entry comes to an end by itself. -/
  forward_ends : ∀ fuel, t.chain.slots.size ≤ fuel →
    t.chain.walk (·.older) fuel t.chain.newest = t.chain.toList
  /-- The walk from the oldest entry comes to an end by itself, and visits the same entries. -/
  backward_ends : ∀ fuel, t.chain.slots.size ≤ fuel →
    t.chain.walk (·.newer) fuel t.chain.oldest = t.chain.toList.reverse
  /-- The space in use is that of the entries. -/
  used : t.used = Reference.spaceIn (t.chain.entries.map Entry.item)
  /-- Every entry is charged for the value that it holds. -/
  fair : ∀ entry ∈ t.chain.entries, entry.footprint = spaceOf entry.value
  /-- The stamps decrease. -/
  descending : t.chain.entries.Pairwise fun a b => b.stamp < a.stamp
  /-- The clock has passed every stamp. -/
  below_clock : ∀ entry ∈ t.chain.entries, entry.stamp < t.chain.clock
  /-- There is a newest entry unless the table is empty. -/
  newest : t.chain.newest = none ↔ t.isEmpty = true
  /-- There is an oldest entry unless the table is empty. -/
  oldest : t.chain.oldest = none ↔ t.isEmpty = true

variable [EquivBEq κ] [LawfulHashable κ]

theorem Sound.consistent {t : Table κ ν} (h : t.Sound) : t.Consistent := by
  have hwellFormed := h.wellFormed
  have hused := h.used
  obtain ⟨cells, hagrees, -⟩ := h
  have hslots := hagrees.chain.map_toList
  have hindex : t.index.toList.Perm (t.chain.toList.map fun cell => (cell.2.key, cell.1)) := by
    have hcells := hagrees.index_toList
    rw [← hagrees.chain.toList, List.map_map] at hcells
    exact hcells
  have hforward := hagrees.chain.length_toList
  have hbackward : t.chain.fromOldest = t.chain.toList.reverse :=
    hagrees.chain.walk_oldest_eq (Nat.le_refl _)
  constructor
  case index => exact hindex
  case lookup =>
    intro key slot
    rw [hagrees.slot, Option.map_eq_some_iff]
    constructor
    · rintro ⟨cell, hcell, rfl⟩
      obtain ⟨hmem, hkey⟩ := hagrees.distinct.cell?_eq_some.1 hcell
      rw [← hagrees.chain.toList] at hmem
      obtain ⟨⟨slot, entry⟩, hentry, rfl⟩ := List.mem_map.1 hmem
      exact ⟨entry, hentry, hkey⟩
    · rintro ⟨entry, hentry, hkey⟩
      have hmem : (slot, entry.item) ∈ cells := by
        rw [← hagrees.chain.toList]
        exact List.mem_map_of_mem hentry
      exact ⟨_, hagrees.distinct.cell?_eq_some.2 ⟨hmem, hkey⟩, rfl⟩
  case linked => exact hagrees.chain.mem_toList
  case slots => exact hslots ▸ hagrees.chain.ordered.nodup
  case distinct => exact List.pairwise_map.1 hwellFormed.distinct
  case keys => rw [hagrees.size, hagrees.chain.size]
  case forward => exact hforward
  case backward => rw [hbackward, List.length_reverse, hforward]
  case forward_ends => exact fun fuel hfuel => hagrees.chain.walk_newest_eq hfuel
  case backward_ends => exact fun fuel hfuel => hagrees.chain.walk_oldest_eq hfuel
  case used => exact hused
  case fair => exact fun entry hentry => hwellFormed.fair entry.item (List.mem_map_of_mem hentry)
  case descending => exact List.pairwise_map.1 hwellFormed.descending
  case below_clock =>
    exact fun entry hentry => hwellFormed.below_clock entry.item (List.mem_map_of_mem hentry)
  case newest =>
    rw [hagrees.isEmpty, hagrees.chain.ordered.newest, List.head?_eq_none_iff, List.map_eq_nil_iff]
  case oldest =>
    rw [hagrees.isEmpty, hagrees.chain.ordered.oldest, List.getLast?_eq_none_iff,
      List.map_eq_nil_iff]

end Table

namespace Cache

variable {κ ν : Type} [BEq κ] [Hashable κ] [Footprint ν]

/-- The caches that come about by making, operating, giving recipes and copying. -/
inductive Reachable : Cache κ ν → Prop
  /-- Making an empty cache. -/
  | empty (name : String) (limit : Int) : Reachable (empty name limit)
  /-- Operating on a cache. -/
  | apply {c : Cache κ ν} (h : Reachable c) (op : Operation κ ν) : Reachable (c.apply op).after
  /-- Giving a cache a recipe, which takes the tables of empty reachable caches. -/
  | withRecipe {c : Cache κ ν} (h : Reachable c) (made : Int → Cache κ ν)
      (hmade : ∀ limit, Reachable (made limit)) (hempty : ∀ limit, (made limit).isEmpty = true)
      (recipe : Int → Fresh κ ν) (hrecipe : ∀ limit, (recipe limit).table = (made limit).toTable) :
      Reachable (c.withRecipe recipe)
  /-- Copying a cache. -/
  | copy {c : Cache κ ν} (h : Reachable c) : Reachable c.copy

variable [EquivBEq κ] [LawfulHashable κ]

theorem Reachable.ready {c : Cache κ ν} (h : c.Reachable) : c.Ready := by
  induction h with
  | empty name limit => exact ⟨Table.sound_empty limit, Table.agrees_empty⟩
  | apply _ op ih => exact ih.apply op
  | withRecipe _ made _ hempty recipe hrecipe ih ihmade =>
    exact ih.withRecipe (fun limit => (ihmade limit).sound) hempty hrecipe
  | copy _ ih => exact ih.copy

omit [EquivBEq κ] [LawfulHashable κ] in
/-- A cache may be given a recipe for unused tables of one limit. -/
theorem Reachable.withUnused {c : Cache κ ν} (h : c.Reachable) (limit : Int) :
    (c.withRecipe fun _ => Fresh.unused limit).Reachable := by
  have hempty : (Cache.empty "fresh" limit : Cache κ ν).isEmpty = true := Std.HashMap.isEmpty_empty
  exact h.withRecipe (fun _ => Cache.empty "fresh" limit) (fun _ => .empty "fresh" limit)
    (fun _ => hempty) _ fun _ => rfl

/-- In every reachable cache the index, the chain, the budget and the clock fit together. -/
theorem Reachable.structures_agree {c : Cache κ ν} (h : c.Reachable) : c.toTable.Consistent :=
  h.ready.sound.consistent

/-- A copy may use more space than its limit allows. -/
theorem structures_agree_over_limit :
    let source : Cache Nat String :=
      ((((empty "demo" 3).withRecipe fun _ => Fresh.unused 1).apply (.put 1 "a")).after.apply
        (.put 2 "b")).after
    source.copy.limit = 1 ∧ source.copy.used = 2 ∧ source.copy.toTable.Consistent := by
  intro source
  have hempty : (empty "demo" 3 : Cache Nat String).Reachable := .empty "demo" 3
  have hrecipe := hempty.withRecipe (fun _ => empty "fresh" 1) (fun _ => .empty "fresh" 1)
    (fun _ => by cbv) (fun _ => Fresh.unused 1) fun _ => rfl
  have hsource : source.Reachable := (hrecipe.apply (.put 1 "a")).apply (.put 2 "b")
  exact ⟨by cbv, by cbv, hsource.copy.structures_agree⟩

end Cache

end BudgetCache
