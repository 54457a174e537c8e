import BudgetCache.Proofs.ChainHolds
import BudgetCache.Proofs.Reference

/-!
# The parts of a table agree

A table keeps its entries in a chain, the slot of each key in an index, and the space in use in a
budget. `Agrees` says that the three fit together: the chain consists of certain cells, the index
leads from each key to the cell of that key and stores the same instance of the key, and the budget
has added up the cells. This module follows the steps from which the operations are built. The view
of a table is the reference with the same items, and each step shows as a step of the reference.
-/

namespace BudgetCache

namespace Table

variable {κ ν : Type} [BEq κ]

/-! ## Cells by key -/

/-- The cell of a key. -/
def cell? (cells : List (Nat × Item κ ν)) (key : κ) : Option (Nat × Item κ ν) :=
  cells.find? (·.2.key == key)

/-- No key occurs in two cells. -/
def DistinctKeys (cells : List (Nat × Item κ ν)) : Prop :=
  cells.Pairwise fun a b => (a.2.key == b.2.key) = false

theorem cell?_cons (cell : Nat × Item κ ν) (cells : List (Nat × Item κ ν)) (key : κ) :
    cell? (cell :: cells) key = if cell.2.key == key then some cell else cell? cells key := by
  rw [cell?, List.find?_cons]
  cases h : cell.2.key == key <;> simp [cell?]

theorem cell?_eq_none {cells : List (Nat × Item κ ν)} {key : κ} :
    cell? cells key = none ↔ ∀ cell ∈ cells, (cell.2.key == key) = false := by
  simp [cell?]

theorem exists_of_cell? {cells : List (Nat × Item κ ν)} {key : κ} {cell : Nat × Item κ ν}
    (h : cell? cells key = some cell) :
    (cell.2.key == key) = true ∧ ∃ xs ys, cells = xs ++ cell :: ys := by
  obtain ⟨hkey, xs, ys, hcells, -⟩ := List.find?_eq_some_iff_append.1 h
  exact ⟨hkey, xs, ys, hcells⟩

theorem others_of_absent {cells : List (Nat × Item κ ν)} {key : κ}
    (h : ∀ cell ∈ cells, (cell.2.key == key) = false) :
    Reference.others key (cells.map (·.2)) = cells.map (·.2) := by
  refine Reference.others_eq_self fun item hitem => ?_
  obtain ⟨cell, hcell, rfl⟩ := List.mem_map.1 hitem
  exact h cell hcell

theorem DistinctKeys.items {cells : List (Nat × Item κ ν)} (h : DistinctKeys cells) :
    Reference.Distinct (cells.map (·.2)) :=
  List.pairwise_map.2 h

theorem DistinctKeys.remove {xs ys : List (Nat × Item κ ν)} {cell : Nat × Item κ ν}
    (h : DistinctKeys (xs ++ cell :: ys)) : DistinctKeys (xs ++ ys) :=
  h.sublist (List.Sublist.append_left (List.sublist_cons_self cell ys) xs)

section Lawful

variable [EquivBEq κ]

theorem DistinctKeys.middle {xs ys : List (Nat × Item κ ν)} {cell : Nat × Item κ ν}
    (h : DistinctKeys (xs ++ cell :: ys)) {key : κ} (hkey : (cell.2.key == key) = true) :
    ∀ other ∈ xs ++ ys, (other.2.key == key) = false := by
  have hitems := h.items
  rw [List.map_append, List.map_cons] at hitems
  intro other hother
  refine hitems.middle hkey other.2 ?_
  rw [← List.map_append]
  exact List.mem_map_of_mem hother

theorem DistinctKeys.cons {cells : List (Nat × Item κ ν)} {cell : Nat × Item κ ν}
    (h : DistinctKeys cells) (habsent : ∀ other ∈ cells, (other.2.key == cell.2.key) = false) :
    DistinctKeys (cell :: cells) :=
  List.pairwise_cons.2 ⟨fun other hother => BEq.symm_false (habsent other hother), h⟩

theorem DistinctKeys.cell?_middle {xs ys : List (Nat × Item κ ν)} {cell : Nat × Item κ ν}
    (h : DistinctKeys (xs ++ cell :: ys)) (key : κ) :
    cell? (xs ++ cell :: ys) key =
      if cell.2.key == key then some cell else cell? (xs ++ ys) key := by
  cases hkey : cell.2.key == key with
  | false => simp [cell?, List.find?_append, hkey]
  | true =>
    have hxs : xs.find? (·.2.key == key) = none := by
      refine List.find?_eq_none.2 fun other hother => ?_
      simp [h.middle hkey other (List.mem_append_left ys hother)]
    simp [cell?, List.find?_append, hxs, hkey]

/-- The cell of a key is the one that has the key. -/
theorem DistinctKeys.cell?_eq_some {cells : List (Nat × Item κ ν)} (h : DistinctKeys cells)
    {key : κ} {cell : Nat × Item κ ν} :
    cell? cells key = some cell ↔ cell ∈ cells ∧ (cell.2.key == key) = true := by
  constructor
  · intro hcell
    obtain ⟨hkey, xs, ys, rfl⟩ := exists_of_cell? hcell
    exact ⟨by simp, hkey⟩
  · rintro ⟨hmem, hkey⟩
    obtain ⟨xs, ys, rfl⟩ := List.append_of_mem hmem
    rw [h.cell?_middle, if_pos hkey]

theorem DistinctKeys.cell?_removed {xs ys : List (Nat × Item κ ν)} {cell : Nat × Item κ ν}
    (h : DistinctKeys (xs ++ cell :: ys)) {key : κ} (hkey : (cell.2.key == key) = true) :
    cell? (xs ++ ys) key = none :=
  cell?_eq_none.2 (h.middle hkey)

theorem DistinctKeys.others_middle {xs ys : List (Nat × Item κ ν)} {cell : Nat × Item κ ν}
    (h : DistinctKeys (xs ++ cell :: ys)) {key : κ} (hkey : (cell.2.key == key) = true) :
    Reference.others key ((xs ++ cell :: ys).map (·.2)) = (xs ++ ys).map (·.2) := by
  have hitems := h.items
  rw [List.map_append, List.map_cons] at hitems ⊢
  rw [hitems.others_middle hkey, List.map_append]

end Lawful

/-! ## Agreement -/

variable [Hashable κ]

/-- The chain, the index and the budget of a table all belong to these cells. -/
structure Agrees (t : Table κ ν) (cells : List (Nat × Item κ ν)) : Prop where
  /-- The chain consists of the cells. -/
  chain : t.chain.Holds cells
  /-- No key occurs in two cells. -/
  distinct : DistinctKeys cells
  /-- The index leads from a key to the slot of its cell. -/
  slot : ∀ key, t.index[key]? = (cell? cells key).map (·.1)
  /-- The index stores the key that the cell stores. -/
  stored : ∀ key, t.index.getKey? key = (cell? cells key).map (·.2.key)
  /-- There are as many keys as cells. -/
  size : t.index.size = cells.length
  /-- The space in use is that of the cells. -/
  used : t.budget.used = Reference.spaceIn (cells.map (·.2))

/-- The reference with the same items, limit, clock and counters. -/
def view (t : Table κ ν) : Reference κ ν :=
  { items := t.chain.entries.map Entry.item
    limit := t.budget.limit
    clock := t.chain.clock
    counters := t.counters }

theorem Agrees.view_eq {t : Table κ ν} {cells : List (Nat × Item κ ν)} (h : t.Agrees cells) :
    t.view = ⟨cells.map (·.2), t.budget.limit, t.chain.clock, t.counters⟩ := by
  rw [view, h.chain.entries]

theorem Agrees.withCounters {t : Table κ ν} {cells : List (Nat × Item κ ν)} (h : t.Agrees cells)
    (counters : Counters) : ({ t with counters } : Table κ ν).Agrees cells :=
  ⟨h.chain, h.distinct, h.slot, h.stored, h.size, h.used⟩

theorem Agrees.withLimit {t : Table κ ν} {cells : List (Nat × Item κ ν)} (h : t.Agrees cells)
    (limit : Int) : ({ t with budget := { t.budget with limit } } : Table κ ν).Agrees cells :=
  ⟨h.chain, h.distinct, h.slot, h.stored, h.size, h.used⟩

theorem Agrees.items {t : Table κ ν} {cells : List (Nat × Item κ ν)} (h : t.Agrees cells) :
    t.view.items = cells.map (·.2) := by
  rw [h.view_eq]

theorem Agrees.find? {t : Table κ ν} {cells : List (Nat × Item κ ν)} (h : t.Agrees cells)
    (key : κ) : t.view.find? key = (cell? cells key).map (·.2) := by
  rw [Reference.find?, h.items, List.find?_map]
  rfl

theorem Agrees.isEmpty {t : Table κ ν} {cells : List (Nat × Item κ ν)} (h : t.Agrees cells) :
    t.isEmpty = true ↔ cells = [] := by
  rw [Table.isEmpty, Std.HashMap.isEmpty_eq_size_eq_zero, beq_iff_eq, h.size,
    List.length_eq_zero_iff]

/-- Without a cell, neither the index nor the reference finds the key. -/
theorem Agrees.absent {t : Table κ ν} {cells : List (Nat × Item κ ν)} (h : t.Agrees cells) {key : κ}
    (hcell : cell? cells key = none) : t.index[key]? = none ∧ t.view.find? key = none := by
  rw [h.slot, h.find?, hcell]
  exact ⟨rfl, rfl⟩

/-- The index and the reference find the same cell. -/
theorem Agrees.present {t : Table κ ν} {cells : List (Nat × Item κ ν)} (h : t.Agrees cells)
    {key : κ} {slot : Nat} {item : Item κ ν} (hcell : cell? cells key = some (slot, item)) :
    t.index[key]? = some slot ∧ t.view.find? key = some item := by
  rw [h.slot, h.find?, hcell]
  exact ⟨rfl, rfl⟩

/-- The entry of a key holds the item that the reference finds. -/
theorem Agrees.find?_item {t : Table κ ν} {cells : List (Nat × Item κ ν)} (h : t.Agrees cells)
    (key : κ) : (t.find? key).map Entry.item = t.view.find? key := by
  rw [Table.find?, h.slot, h.find?]
  cases hcell : cell? cells key with
  | none => rfl
  | some cell => simpa [Chain.item?] using h.chain.item cell (List.mem_of_find?_eq_some hcell)

/-! ## The steps of a table -/

section Lawful

variable [EquivBEq κ]

/-- A table whose chain has moved one cell to the front, perhaps with another value, while the index
stayed and the budget followed. -/
theorem Agrees.moved {t t' : Table κ ν} {xs ys : List (Nat × Item κ ν)} {slot : Nat}
    {item item' : Item κ ν} (h : t.Agrees (xs ++ (slot, item) :: ys))
    (hchain : t'.chain.Holds ((slot, item') :: (xs ++ ys))) (hkey : item'.key = item.key)
    (hindex : t'.index = t.index)
    (hused : t'.budget.used = t.budget.used + (item'.footprint - item.footprint)) :
    t'.Agrees ((slot, item') :: (xs ++ ys)) := by
  constructor
  case chain => exact hchain
  case distinct =>
    refine h.distinct.remove.cons fun other hother => ?_
    exact h.distinct.middle (by simp [hkey]) other hother
  case slot =>
    intro key
    rw [hindex, h.slot, h.distinct.cell?_middle, cell?_cons, hkey]
    split <;> rfl
  case stored =>
    intro key
    rw [hindex, h.stored, h.distinct.cell?_middle, cell?_cons, hkey]
    split
    · simp [hkey]
    · rfl
  case size =>
    rw [hindex, h.size]
    simp only [List.length_append, List.length_cons]
    omega
  case used =>
    rw [hused, h.used]
    simp only [List.map_append, List.map_cons, Reference.spaceIn_append, Reference.spaceIn_cons]
    omega

theorem Agrees.touch {t : Table κ ν} {xs ys : List (Nat × Item κ ν)} {slot : Nat}
    {item : Item κ ν} (h : t.Agrees (xs ++ (slot, item) :: ys)) (counters : Counters) :
    ({ t with chain := t.chain.touch slot, counters } : Table κ ν).Agrees
      ((slot, { item with stamp := t.chain.clock }) :: (xs ++ ys)) :=
  h.moved h.chain.touch rfl rfl (by simp)

/-- Replacing at the slot of a cell moves the cell to the front with another value. -/
theorem Agrees.replaceAt {t : Table κ ν} {xs ys : List (Nat × Item κ ν)} {slot : Nat}
    {item : Item κ ν} (h : t.Agrees (xs ++ (slot, item) :: ys)) (value : ν) (footprint : Int) :
    (t.replaceAt slot value footprint).Agrees
        ((slot, ⟨item.key, value, footprint, t.chain.clock⟩) :: (xs ++ ys)) ∧
      (t.replaceAt slot value footprint).view =
        ⟨⟨item.key, value, footprint, t.chain.clock⟩ :: (xs ++ ys).map (·.2), t.budget.limit,
          t.chain.clock + 1, t.counters⟩ := by
  have htouch : (t.chain.touch slot).Holds
      ([] ++ (slot, { item with stamp := t.chain.clock }) :: (xs ++ ys)) := h.chain.touch
  obtain ⟨hold, hchain⟩ := htouch.replace value footprint
  have hreplace : t.replaceAt slot value footprint = { t with
      chain := ((t.chain.touch slot).replace slot value footprint).2
      budget := t.budget.exchange item.footprint footprint } := by
    simp only [Table.replaceAt]
    split
    · next heq => simp [heq] at hold
    · next old chain heq =>
      rw [heq] at hold ⊢
      rw [Option.some.inj hold]
  have hagrees : (t.replaceAt slot value footprint).Agrees
      ((slot, ⟨item.key, value, footprint, t.chain.clock⟩) :: (xs ++ ys)) := by
    rw [hreplace]
    exact h.moved hchain rfl rfl rfl
  refine ⟨hagrees, ?_⟩
  rw [hagrees.view_eq, hreplace]
  simp [Budget.exchange, Chain.replace, Chain.modify]

variable [LawfulHashable κ]

theorem agrees_empty (limit : Int) : (empty limit : Table κ ν).Agrees [] where
  chain := Chain.holds_empty
  distinct := List.Pairwise.nil
  slot := by simp [empty, cell?]
  stored := by simp [empty, cell?]
  size := by simp [empty]
  used := rfl

theorem Agrees.mem_index {t : Table κ ν} {cells : List (Nat × Item κ ν)} (h : t.Agrees cells)
    (key : κ) : key ∈ t.index ↔ (cell? cells key).isSome := by
  rw [Std.HashMap.mem_iff_isSome_getElem?, h.slot, Option.isSome_map]

/-- The index consists of the keys of the cells, each with its slot. -/
theorem Agrees.index_toList {t : Table κ ν} {cells : List (Nat × Item κ ν)} (h : t.Agrees cells) :
    t.index.toList.Perm (cells.map fun cell => (cell.2.key, cell.1)) := by
  have hindex : t.index.toList.Nodup := by
    refine Std.HashMap.distinct_keys_toList.imp fun hne heq => ?_
    simp [heq] at hne
  have hcells : (cells.map fun cell => (cell.2.key, cell.1)).Nodup := by
    refine List.pairwise_map.2 (h.distinct.imp fun hne heq => ?_)
    simp [(Prod.mk.inj heq).1] at hne
  refine (List.perm_ext_iff_of_nodup hindex hcells).2 fun pair => ?_
  obtain ⟨key, slot⟩ := pair
  rw [Std.HashMap.mem_toList_iff_getKey?_eq_some_and_getElem?_eq_some, h.slot, h.stored,
    List.mem_map]
  constructor
  · rintro ⟨hkey, hslot⟩
    obtain ⟨cell, hcell, rfl⟩ := Option.map_eq_some_iff.1 hkey
    have heq : cell.1 = slot := by simpa [hcell] using hslot
    exact ⟨cell, (h.distinct.cell?_eq_some.1 hcell).1, by rw [heq]⟩
  · rintro ⟨cell, hmem, heq⟩
    obtain ⟨rfl, rfl⟩ := Prod.mk.inj heq
    have hcell : cell? cells cell.2.key = some cell :=
      h.distinct.cell?_eq_some.2 ⟨hmem, BEq.rfl⟩
    simp [hcell]

/-- Going through the index finds the keys and values of the cells. -/
theorem Agrees.toList_perm {t : Table κ ν} {cells : List (Nat × Item κ ν)} (h : t.Agrees cells) :
    t.toList.Perm ((cells.map (·.2)).map fun item => (item.key, item.value)) := by
  have hentries := (h.index_toList.filterMap fun pair => t.chain.get? pair.2).map
    fun entry => (entry.key, entry.value)
  rw [List.filterMap_map] at hentries
  rw [← h.chain.filterMap_get?, List.map_map]
  exact hentries

/-- Pushing an absent key adds a cell in front. -/
theorem Agrees.push {t : Table κ ν} {cells : List (Nat × Item κ ν)} (h : t.Agrees cells) {key : κ}
    (habsent : ∀ cell ∈ cells, (cell.2.key == key) = false) (value : ν) (footprint : Int) :
    (t.push key value footprint).Agrees
      (((t.chain.insert { key, value, footprint }).1, ⟨key, value, footprint, t.chain.clock⟩) ::
        cells) := by
  have hmem : key ∉ t.index := by
    rw [h.mem_index, cell?_eq_none.2 habsent]
    simp
  constructor
  case chain => exact h.chain.insert { key, value, footprint }
  case distinct => exact h.distinct.cons habsent
  case slot =>
    intro other
    simp only [Table.push, Std.HashMap.getElem?_insert, cell?_cons, h.slot]
    split <;> rfl
  case stored =>
    intro other
    simp only [Table.push, Std.HashMap.getKey?_insert, cell?_cons, h.stored]
    split <;> rfl
  case size => simp [Table.push, Std.HashMap.size_insert, hmem, h.size]
  case used =>
    simp only [Table.push, Budget.charge, h.used, List.map_cons, Reference.spaceIn_cons]
    omega

theorem Agrees.view_push {t : Table κ ν} {cells : List (Nat × Item κ ν)} (h : t.Agrees cells)
    {key : κ} (habsent : ∀ cell ∈ cells, (cell.2.key == key) = false) (value : ν)
    (footprint : Int) :
    (t.push key value footprint).view = t.view.pushFront key value footprint := by
  rw [(h.push habsent value footprint).view_eq, h.view_eq, Reference.pushFront]
  simp [Table.push, Budget.charge]

/-- Discarding the entry of a cell takes the cell out of the list. -/
theorem Agrees.discard {t : Table κ ν} {xs ys : List (Nat × Item κ ν)} {slot : Nat}
    {item : Item κ ν} (h : t.Agrees (xs ++ (slot, item) :: ys)) :
    ∃ entry, (t.discard slot).1 = some entry ∧ entry.item = item ∧
      (t.discard slot).2.Agrees (xs ++ ys) ∧
      (t.discard slot).2.view = { t.view with items := (xs ++ ys).map (·.2) } := by
  obtain ⟨hchain, hclock, entry, hentry, hitem, -⟩ := h.chain.remove
  have hkey : entry.key = item.key := congrArg Item.key hitem
  have hfootprint : entry.footprint = item.footprint := congrArg Item.footprint hitem
  have hdiscard : t.discard slot = (some entry, { t with
      index := t.index.erase item.key
      chain := (t.chain.remove slot).2
      budget := t.budget.release item.footprint }) := by
    rw [← hkey, ← hfootprint]
    simp only [Table.discard]
    split
    · next heq => simp [heq] at hentry
    · next found chain heq =>
      rw [heq] at hentry ⊢
      rw [Option.some.inj hentry]
  have hmem : item.key ∈ t.index := by
    rw [h.mem_index, h.distinct.cell?_middle]
    simp
  have hagrees : (t.discard slot).2.Agrees (xs ++ ys) := by
    rw [hdiscard]
    constructor
    case chain => exact hchain
    case distinct => exact h.distinct.remove
    case slot =>
      intro key
      rw [Std.HashMap.getElem?_erase, h.slot, h.distinct.cell?_middle]
      split
      · next hsame => rw [h.distinct.cell?_removed hsame, Option.map_none]
      · rfl
    case stored =>
      intro key
      rw [Std.HashMap.getKey?_erase, h.stored, h.distinct.cell?_middle]
      split
      · next hsame => rw [h.distinct.cell?_removed hsame, Option.map_none]
      · rfl
    case size =>
      rw [Std.HashMap.size_erase, if_pos hmem, h.size]
      simp only [List.length_append, List.length_cons]
      omega
    case used =>
      simp only [Budget.release, h.used, List.map_append, List.map_cons, Reference.spaceIn_append,
        Reference.spaceIn_cons]
      omega
  refine ⟨entry, by rw [hdiscard], hitem, hagrees, ?_⟩
  rw [hagrees.view_eq, h.view_eq, hdiscard]
  simp [Budget.release, hclock]

theorem agrees_clear (t : Table κ ν) : t.clear.after.Agrees [] where
  chain := Chain.holds_clear t.chain
  distinct := List.Pairwise.nil
  slot := by simp [Table.clear, cell?]
  stored := by simp [Table.clear, cell?]
  size := by simp [Table.clear]
  used := rfl

/-! ## Eviction -/

theorem Agrees.evict {t : Table κ ν} {cells : List (Nat × Item κ ν)} {slot : Nat}
    {item : Item κ ν} (h : t.Agrees (cells ++ [(slot, item)])) :
    (t.evict slot).1.Agrees cells ∧ (t.evict slot).1.view = t.view.pop ∧
      (t.evict slot).1.budget.limit = t.budget.limit ∧
      (t.evict slot).2 = [.evicted item.footprint item.stamp] := by
  obtain ⟨entry, hentry, rfl, hagrees, hview⟩ := h.discard
  rw [List.append_nil] at hagrees hview
  have hevict : t.evict slot = ({ (t.discard slot).2 with
      counters := (t.discard slot).2.counters.eviction },
      [.evicted entry.footprint entry.stamp]) := by
    simp only [Table.evict]
    split
    · next heq => simp [heq] at hentry
    · next found rest heq =>
      rw [heq] at hentry ⊢
      rw [Option.some.inj hentry]
  have hevicted : (t.evict slot).1.Agrees cells := by
    rw [hevict]
    exact hagrees.withCounters _
  have hrest : (t.discard slot).2.view = ⟨cells.map (·.2), t.budget.limit, t.chain.clock,
      t.counters⟩ := by
    rw [hview, h.view_eq]
  rw [hagrees.view_eq, Reference.mk.injEq] at hrest
  obtain ⟨-, hlimit, hclock, hcounters⟩ := hrest
  refine ⟨hevicted, ?_, ?_, by rw [hevict]; rfl⟩
  · rw [hevicted.view_eq, h.view_eq, hevict, Reference.pop]
    simp [hlimit, hclock, hcounters]
  · rw [hevict]
    exact hlimit

/-- Evicting until a budget is satisfied pops items as long as the space in use is over the mark.
The condition on the budget must depend on the space in use only, the limit being given. -/
theorem Agrees.evictUntil {t : Table κ ν} {cells : List (Nat × Item κ ν)} (h : t.Agrees cells)
    {done : Budget → Bool} (exceeds : Int → Bool)
    (hdone : ∀ b : Budget, b.limit = t.budget.limit → done b = !exceeds b.used) {fuel : Nat}
    (hfuel : cells.length ≤ fuel) :
    ∃ rest, (Table.evictUntil done fuel t).1.Agrees rest ∧
      (∃ gone, cells = rest ++ gone) ∧
      ((Table.evictUntil done fuel t).1.view, (Table.evictUntil done fuel t).2) =
        t.view.popWhile exceeds := by
  induction cells using List.reverseRecOn generalizing t fuel with
  | nil =>
    refine ⟨[], ?_⟩
    have hstop : Table.evictUntil done fuel t = (t, []) := by
      cases fuel with
      | zero => rfl
      | succ fuel =>
        have holdest : t.chain.oldest = none := h.chain.ordered.oldest
        simp [Table.evictUntil, holdest]
    rw [hstop]
    exact ⟨h, ⟨[], rfl⟩, (Reference.popWhile_nil exceeds h.items).symm⟩
  | append_singleton cells cell ih =>
    obtain ⟨slot, item⟩ := cell
    obtain ⟨fuel, rfl⟩ : ∃ n, fuel = n + 1 := ⟨fuel - 1, by simp at hfuel; omega⟩
    have hitems : t.view.items = cells.map (·.2) ++ [item] := by simp [h.items]
    have htotal : exceeds t.view.total = exceeds t.budget.used := by
      rw [Reference.total, h.items, h.used]
    have holdest : t.chain.oldest = some slot := by
      rw [h.chain.ordered.oldest]
      simp
    rw [Reference.popWhile_concat exceeds hitems, htotal, Table.evictUntil, hdone t.budget rfl]
    cases hexceeds : exceeds t.budget.used with
    | false => exact ⟨cells ++ [(slot, item)], h, ⟨[], by simp⟩, rfl⟩
    | true =>
      obtain ⟨hevicted, hview, hlimit, hevents⟩ := h.evict
      obtain ⟨rest, hagrees, ⟨gone, hgone⟩, hpop⟩ := ih hevicted
        (fun b hb => hdone b (hb.trans hlimit)) (by simpa using hfuel)
      rw [hview, Prod.ext_iff] at hpop
      refine ⟨rest, ?_, ⟨gone ++ [(slot, item)], by simp [hgone]⟩, ?_⟩
      · simpa [holdest] using hagrees
      · simp [holdest, hevents, ← hpop.1, ← hpop.2]

end Lawful

end Table

end BudgetCache
