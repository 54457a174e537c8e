import BudgetCache.Cache.Basic
import BudgetCache.Proofs.Refinement

/-!
# Copies

A copy pushes the entries of its source, the oldest first, onto the empty table that the recipe
made. No room is made for them, so the copy has all the items of its source in the same order,
whatever its limit. Only their stamps are new: they count up from the clock of the fresh table.
-/

namespace BudgetCache

namespace Reference

variable {κ ν : Type}

/-- The items stamped one after the other. -/
def restamp : Nat → List (Item κ ν) → List (Item κ ν)
  | _, [] => []
  | clock, item :: items => { item with stamp := clock } :: restamp (clock + 1) items

/-- Pushes items in the given order, each to the front. -/
def pushAll (r : Reference κ ν) (items : List (Item κ ν)) : Reference κ ν :=
  items.foldl (fun r item => r.pushFront item.key item.value item.footprint) r

/-- The pushed items come to stand in front, the last one first. -/
theorem pushAll_eq (r : Reference κ ν) (items : List (Item κ ν)) :
    r.pushAll items =
      { r with items := (restamp r.clock items).reverse ++ r.items
               clock := r.clock + items.length } := by
  induction items generalizing r with
  | nil => simp [pushAll, restamp]
  | cons item items ih =>
    have hrest := ih (r.pushFront item.key item.value item.footprint)
    rw [pushAll, List.foldl_cons]
    refine hrest.trans ?_
    simp only [pushFront, restamp, List.reverse_cons, List.append_assoc, List.singleton_append,
      List.length_cons, Nat.add_assoc, Nat.add_comm 1]

theorem exists_of_mem_restamp {items : List (Item κ ν)} {clock : Nat} {item : Item κ ν}
    (h : item ∈ restamp clock items) :
    ∃ old ∈ items, item.value = old.value ∧ item.footprint = old.footprint := by
  induction items generalizing clock with
  | nil => simp [restamp] at h
  | cons first items ih =>
    rcases List.mem_cons.1 h with rfl | hmem
    · exact ⟨first, List.mem_cons_self, rfl, rfl⟩
    · obtain ⟨old, hold, hsame⟩ := ih hmem
      exact ⟨old, List.mem_cons_of_mem first hold, hsame⟩

@[simp]
theorem spaceIn_restamp (clock : Nat) (items : List (Item κ ν)) :
    spaceIn (restamp clock items) = spaceIn items := by
  induction items generalizing clock with
  | nil => rfl
  | cons item items ih => rw [restamp, spaceIn_cons, spaceIn_cons, ih]

@[simp]
theorem spaceIn_reverse (items : List (Item κ ν)) : spaceIn items.reverse = spaceIn items := by
  induction items with
  | nil => rfl
  | cons item items ih =>
    rw [List.reverse_cons, spaceIn_append, ih, spaceIn_cons, spaceIn_cons, spaceIn_nil]
    omega

end Reference

namespace Table

variable {κ ν : Type} [BEq κ] [Hashable κ] [EquivBEq κ] [LawfulHashable κ]

/-- Pushing entries with new and distinct keys pushes their items. -/
theorem Agrees.pushAll {t : Table κ ν} {cells : List (Nat × Item κ ν)} (h : t.Agrees cells)
    {entries : List (Entry κ ν)} (hdistinct : entries.Pairwise fun a b => (a.key == b.key) = false)
    (habsent : ∀ entry ∈ entries, ∀ cell ∈ cells, (cell.2.key == entry.key) = false) :
    (∃ cells', (t.pushAll entries).Agrees cells') ∧
      (t.pushAll entries).view = t.view.pushAll (entries.map Entry.item) := by
  induction entries generalizing t cells with
  | nil => exact ⟨⟨cells, h⟩, rfl⟩
  | cons entry entries ih =>
    obtain ⟨hfirst, hrest⟩ := List.pairwise_cons.1 hdistinct
    have hcells := habsent entry List.mem_cons_self
    have hpush := h.push hcells entry.value entry.footprint
    have hview := h.view_push hcells entry.value entry.footprint
    obtain ⟨hagrees, hshown⟩ := ih hpush hrest fun other hother cell hcell => by
      rcases List.mem_cons.1 hcell with rfl | hmem
      · exact hfirst other hother
      · exact habsent other (List.mem_cons_of_mem entry hother) cell hmem
    refine ⟨hagrees, hshown.trans ?_⟩
    rw [hview]
    rfl

end Table

namespace Cache

variable {κ ν : Type} [BEq κ] [Hashable κ] [Footprint ν]

/-- The table is sound, and the recipe makes tables without entries. -/
structure Ready (c : Cache κ ν) : Prop where
  /-- The table is sound. -/
  sound : c.toTable.Sound
  /-- A fresh table has no entries. -/
  fresh : ∀ limit, (c.recipe limit).table.Agrees []

/-- A recipe may be given that takes its tables from empty caches. -/
theorem Ready.withRecipe {c : Cache κ ν} (h : c.Ready) {made : Int → Cache κ ν}
    (hmade : ∀ limit, (made limit).toTable.Sound) (hempty : ∀ limit, (made limit).isEmpty = true)
    {recipe : Int → Fresh κ ν} (hrecipe : ∀ limit, (recipe limit).table = (made limit).toTable) :
    (c.withRecipe recipe).Ready := by
  refine ⟨h.sound, ?_⟩
  intro limit
  obtain ⟨cells, hagrees, -⟩ := hmade limit
  have hcells : cells = [] := hagrees.isEmpty.1 (hempty limit)
  rw [hcells] at hagrees
  exact (hrecipe limit).symm ▸ hagrees

variable [EquivBEq κ] [LawfulHashable κ]

/-- A copy pushes the items of its source, the oldest first, onto the fresh table. -/
theorem Ready.view_copy {c : Cache κ ν} (h : c.Ready) :
    (∃ cells, c.copy.toTable.Agrees cells) ∧
      c.copy.view = (c.recipe c.limit).table.view.pushAll c.view.items.reverse := by
  have hitems : (c.chain.fromOldest.map (·.2)).map Entry.item = c.view.items.reverse := by
    rw [← h.sound.fromOldest, List.map_map]
    rfl
  have hdistinct : (c.chain.fromOldest.map (·.2)).Pairwise fun a b => (a.key == b.key) = false := by
    have hitem : (c.view.items.reverse).Pairwise fun a b => (a.key == b.key) = false :=
      List.pairwise_reverse.2 (List.Pairwise.imp BEq.symm_false h.sound.wellFormed.distinct)
    rw [← hitems, List.pairwise_map] at hitem
    exact hitem
  have hpush := (h.fresh c.limit).pushAll hdistinct (by simp)
  rw [hitems] at hpush
  exact hpush

/-- A copy takes over keys, values and footprints. -/
theorem Ready.copy_items {c : Cache κ ν} (h : c.Ready) :
    c.copy.view.items =
      (Reference.restamp (c.recipe c.limit).table.chain.clock c.view.items.reverse).reverse := by
  rw [h.view_copy.2, Reference.pushAll_eq, (h.fresh c.limit).items]
  exact List.append_nil _

theorem Ready.copy {c : Cache κ ν} (h : c.Ready) : c.copy.Ready := by
  obtain ⟨⟨cells, hagrees⟩, -⟩ := h.view_copy
  have hitems := h.copy_items
  refine ⟨⟨cells, hagrees, fun cell hcell => ?_⟩, h.fresh⟩
  have hmem : cell.2 ∈ c.copy.view.items := by
    rw [hagrees.items]
    exact List.mem_map_of_mem hcell
  rw [hitems, List.mem_reverse] at hmem
  obtain ⟨old, hold, hvalue, hfootprint⟩ := Reference.exists_of_mem_restamp hmem
  rw [hvalue, hfootprint]
  exact h.sound.wellFormed.fair old (List.mem_reverse.1 hold)

theorem Ready.apply {c : Cache κ ν} (h : c.Ready) (op : Operation κ ν) :
    (c.apply op).after.Ready :=
  ⟨(h.sound.apply op).sound, h.fresh⟩

theorem Ready.copy_used {c : Cache κ ν} (h : c.Ready) : c.copy.used = c.used := by
  have hused : c.copy.used = c.copy.view.total := h.copy.sound.used
  have hsource : c.used = c.view.total := h.sound.used
  rw [hused, hsource, Reference.total, h.copy_items, Reference.total]
  simp

theorem Ready.copy_limit {c : Cache κ ν} (h : c.Ready) :
    c.copy.limit = (c.recipe c.limit).table.limit := by
  have hlimit := congrArg Reference.limit h.view_copy.2
  rw [Reference.pushAll_eq] at hlimit
  exact hlimit

end Cache

end BudgetCache
