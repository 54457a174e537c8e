import BudgetCache.Proofs.Fitting
import BudgetCache.Proofs.Reachable

/-!
# Budget safety

As long as every copy gets the limit of its source, the space in use never exceeds the limit, and
under a negative limit a cache is empty. A copy that got a lower limit may be over it. No operation
makes that worse, and the first one that stores a value or lowers the limit puts an end to it.

Whatever the limit, the account stays in the range of signed 64-bit numbers as long as footprints
are below `2 ^ 32` and there are fewer than `2 ^ 31` entries.
-/

namespace BudgetCache

/-- The account is in the range of signed 64-bit numbers. -/
def Budget.InRange (b : Budget) : Prop :=
  -2 ^ 63 ≤ b.used ∧ b.used < 2 ^ 63

namespace Reference

variable {κ ν : Type}

/-- What fits, with the item that it makes room for, stays within the limit. -/
theorem total_pushFront_keepFitting (r : Reference κ ν) (key : κ) (value : ν)
    {footprint limit : Int} (h : footprint ≤ limit) :
    ((r.keepFitting (limit - footprint)).pushFront key value footprint).total ≤ limit := by
  have hfits := spaceIn_fitting_le (Int.sub_nonneg.2 h) r.items
  show spaceIn (_ :: fitting (limit - footprint) r.items) ≤ limit
  rw [spaceIn_cons]
  show footprint + _ ≤ limit
  omega

/-- Items of bounded footprint take up at most the bound for each of them. -/
theorem spaceIn_le {items : List (Item κ ν)} {most : Int}
    (h : ∀ item ∈ items, item.footprint ≤ most) : spaceIn items ≤ items.length * most := by
  induction items with
  | nil => simp
  | cons item items ih =>
    have hitem := h item List.mem_cons_self
    have hitems := ih fun other hother => h other (List.mem_cons_of_mem item hother)
    rw [spaceIn_cons, List.length_cons, Int.natCast_add, Int.add_mul]
    omega

theorem footprint_le_spaceIn {items : List (Item κ ν)} (h : ∀ item ∈ items, 0 ≤ item.footprint)
    {item : Item κ ν} (hitem : item ∈ items) : item.footprint ≤ spaceIn items := by
  obtain ⟨front, back, rfl⟩ := List.append_of_mem hitem
  have hfront := spaceIn_nonneg fun other hother => h other (List.mem_append_left _ hother)
  have hback := spaceIn_nonneg fun other hother =>
    h other (List.mem_append_right _ (List.mem_cons_of_mem item hother))
  rw [spaceIn_append, spaceIn_cons]
  omega

theorem total_setLimit_le {r : Reference κ ν} {limit : Int} (h : limit < r.limit)
    (hnonneg : ∀ item ∈ r.items, 0 ≤ item.footprint) :
    (r.setLimit limit).after.total ≤ max limit 0 := by
  have hkept : fitting limit r.items = [] ∨ spaceIn (fitting limit r.items) ≤ limit :=
    fitting_eq_nil_or_le hnonneg
  rw [setLimit_of_lt h hnonneg]
  rcases hkept with hnone | hfits
  · rw [total, keepFitting, hnone, spaceIn_nil]
    exact Int.le_max_right limit 0
  · exact Int.le_trans hfits (Int.le_max_left limit 0)

@[simp]
theorem limit_setLimit (r : Reference κ ν) (limit : Int) :
    (r.setLimit limit).after.limit = limit := by
  unfold setLimit
  split <;> rfl

/-- The space in use stays within the limit, and a negative limit leaves nothing. -/
structure WithinLimit (r : Reference κ ν) : Prop where
  total : r.total ≤ max r.limit 0
  negative : r.limit < 0 → r.items = []

theorem withinLimit_empty (limit : Int) : (empty limit : Reference κ ν).WithinLimit :=
  ⟨Int.le_max_right limit 0, fun _ => rfl⟩

theorem WithinLimit.setLimit {r : Reference κ ν} (h : r.WithinLimit)
    (hnonneg : ∀ item ∈ r.items, 0 ≤ item.footprint) (limit : Int) :
    (r.setLimit limit).after.WithinLimit := by
  by_cases hlt : limit < r.limit
  · refine ⟨?_, fun hneg => ?_⟩
    · rw [limit_setLimit]
      exact total_setLimit_le hlt hnonneg
    · rw [limit_setLimit] at hneg
      rw [setLimit_of_lt hlt hnonneg]
      exact fitting_of_neg hneg hnonneg
  · have hraised : (r.setLimit limit).after = { r with limit } := by
      rw [Reference.setLimit, if_neg hlt]
    have htotal := h.total
    rw [hraised]
    refine ⟨?_, fun hneg => h.negative ?_⟩
    · show r.total ≤ max limit 0
      omega
    · exact Int.lt_of_le_of_lt (Int.not_lt.1 hlt) hneg

variable [BEq κ] [Footprint ν] [EquivBEq κ]

theorem WellFormed.total_without_le {r : Reference κ ν} (h : r.WellFormed) (key : κ) :
    (r.without key).total ≤ r.total := by
  cases hfind : r.find? key with
  | none =>
    have habsent : ∀ item ∈ r.items, (item.key == key) = false := by
      simpa [find?] using hfind
    rw [total, without, others_eq_self habsent]
    exact Int.le_refl r.total
  | some item =>
    obtain ⟨-, xs, ys, hitems⟩ := exists_of_find? hfind
    have hitem := h.footprint_nonneg item (by simp [hitems])
    rw [h.total_without hfind]
    omega

theorem WellFormed.total_get {r : Reference κ ν} (h : r.WellFormed) (key : κ) :
    (r.get key).after.total = r.total ∧ (r.get key).after.limit = r.limit := by
  cases hfind : r.find? key with
  | none =>
    rw [get, hfind]
    exact ⟨rfl, rfl⟩
  | some item =>
    have hrest := h.total_without hfind
    rw [get, hfind]
    refine ⟨?_, rfl⟩
    show spaceIn (_ :: (r.without key).items) = r.total
    rw [spaceIn_cons, ← total, hrest]
    show item.footprint + _ = _
    omega

/-- Storing a value ends within the limit, or the value was refused and the space in use did not
grow. -/
theorem WellFormed.total_put {r : Reference κ ν} (h : r.WellFormed) (key : κ) (value : ν) :
    (r.put key value).after.limit = r.limit ∧
      ((r.put key value).after.total ≤ r.limit ∨
        (r.put key value).after.total ≤ r.total ∧
          (r.put key value).after.contains key = false) := by
  by_cases hlarge : r.limit < spaceOf value
  · rw [h.put_of_lt key hlarge]
    refine ⟨rfl, Or.inr ⟨h.total_without_le key, ?_⟩⟩
    have hnone : (r.without key).find? key = none := by
      refine List.find?_eq_none.2 fun item hitem => ?_
      simp [(mem_others.1 hitem).2]
    show ((r.without key).find? key).isSome = false
    rw [hnone]
    rfl
  · obtain ⟨key', -, hput⟩ := h.put_of_le key (Int.not_lt.1 hlarge)
    rw [hput]
    exact ⟨rfl, Or.inl (total_pushFront_keepFitting _ key' value (Int.not_lt.1 hlarge))⟩

/-- No operation takes the space in use over the limit, nor further over it. -/
theorem WellFormed.total_apply_le {r : Reference κ ν} (h : r.WellFormed) (op : Operation κ ν) :
    (r.apply op).after.total ≤ max r.total (r.apply op).after.limit := by
  cases op with
  | put key value =>
    obtain ⟨hlimit, htotal⟩ := h.total_put key value
    show (r.put key value).after.total ≤ max r.total (r.put key value).after.limit
    rw [hlimit]
    omega
  | get key =>
    obtain ⟨htotal, -⟩ := h.total_get key
    show (r.get key).after.total ≤ max r.total (r.get key).after.limit
    rw [htotal]
    exact Int.le_max_left _ _
  | peek key => exact Int.le_max_left _ _
  | storedKey key => exact Int.le_max_left _ _
  | contains key => exact Int.le_max_left _ _
  | remove key => exact Int.le_trans (h.total_without_le key) (Int.le_max_left _ _)
  | erase key => exact Int.le_trans (h.total_without_le key) (Int.le_max_left _ _)
  | clear => exact Int.le_trans (spaceIn_nonneg h.footprint_nonneg) (Int.le_max_left _ _)
  | setLimit limit =>
    show (r.setLimit limit).after.total ≤ max r.total (r.setLimit limit).after.limit
    rw [limit_setLimit]
    have hnonneg : 0 ≤ r.total := spaceIn_nonneg h.footprint_nonneg
    by_cases hlt : limit < r.limit
    · have hle := total_setLimit_le hlt h.footprint_nonneg
      omega
    · rw [Reference.setLimit, if_neg hlt]
      exact Int.le_max_left _ _

theorem WithinLimit.apply {r : Reference κ ν} (h : r.WithinLimit) (hr : r.WellFormed)
    (op : Operation κ ν) : (r.apply op).after.WithinLimit := by
  have htotal := h.total
  have hwithout : ∀ key, (r.without key).WithinLimit := by
    intro key
    refine ⟨Int.le_trans (hr.total_without_le key) htotal, fun hneg => ?_⟩
    rw [without, h.negative hneg]
    rfl
  cases op with
  | put key value =>
    show (r.put key value).after.WithinLimit
    by_cases hlarge : r.limit < spaceOf value
    · rw [hr.put_of_lt key hlarge]
      exact ⟨(hwithout key).total, (hwithout key).negative⟩
    · obtain ⟨key', -, hput⟩ := hr.put_of_le key (Int.not_lt.1 hlarge)
      have hle := total_pushFront_keepFitting (r.without key) key' value (Int.not_lt.1 hlarge)
      rw [hput]
      refine ⟨Int.le_trans hle (Int.le_max_left _ _), fun hneg => absurd hneg ?_⟩
      exact Int.not_lt.2 (Int.le_trans (spaceOf_nonneg value) (Int.not_lt.1 hlarge))
  | get key =>
    obtain ⟨hsame, hlimit⟩ := hr.total_get key
    refine ⟨?_, fun hneg => ?_⟩
    · show (r.get key).after.total ≤ max (r.get key).after.limit 0
      rw [hsame, hlimit]
      exact htotal
    · have hitems : r.items = [] := h.negative (hlimit ▸ hneg)
      have hnone : r.find? key = none := by rw [find?, hitems]; rfl
      show (r.get key).after.items = []
      rw [get, hnone]
      exact hitems
  | peek key => exact h
  | storedKey key => exact h
  | contains key => exact h
  | remove key => exact hwithout key
  | erase key => exact hwithout key
  | clear => exact ⟨Int.le_max_right _ _, fun _ => rfl⟩
  | setLimit limit => exact h.setLimit hr.footprint_nonneg limit

end Reference

namespace Cache

variable {κ ν : Type} [BEq κ] [Hashable κ] [Footprint ν]

/-- The reachable caches for which every copy on the way got the limit of its source. -/
inductive LimitKept : Cache κ ν → Prop
  | empty (name : String) (limit : Int) : LimitKept (empty name limit)
  | apply {c : Cache κ ν} (h : LimitKept c) (op : Operation κ ν) : LimitKept (c.apply op).after
  | withRecipe {c : Cache κ ν} (h : LimitKept c) (made : Int → Cache κ ν)
      (hmade : ∀ limit, (made limit).Reachable) (hempty : ∀ limit, (made limit).isEmpty = true)
      (recipe : Int → Fresh κ ν) (hrecipe : ∀ limit, (recipe limit).table = (made limit).toTable) :
      LimitKept (c.withRecipe recipe)
  | copy {c : Cache κ ν} (h : LimitKept c) (hlimit : (c.recipe c.limit).table.limit = c.limit) :
      LimitKept c.copy

theorem LimitKept.reachable {c : Cache κ ν} (h : c.LimitKept) : c.Reachable := by
  induction h with
  | empty name limit => exact .empty name limit
  | apply _ op ih => exact ih.apply op
  | withRecipe _ made hmade hempty recipe hrecipe ih =>
    exact ih.withRecipe made hmade hempty recipe hrecipe
  | copy _ _ ih => exact ih.copy

variable [EquivBEq κ] [LawfulHashable κ]

/-- As long as copies get the limit of their source, the items stay within it. -/
theorem LimitKept.withinLimit {c : Cache κ ν} (h : c.LimitKept) : c.view.WithinLimit := by
  induction h with
  | empty name limit => exact Reference.withinLimit_empty limit
  | @apply c h op ih =>
    have hsound := h.reachable.ready.sound
    show (c.toTable.apply op).after.view.WithinLimit
    rw [(hsound.apply op).view]
    exact ih.apply hsound.wellFormed op
  | withRecipe _ _ _ _ _ _ ih => exact ih
  | @copy c h hlimit ih =>
    have hready := h.reachable.ready
    have hcopied : c.copy.view.limit = c.view.limit := hready.copy_limit.trans hlimit
    have htotal : c.copy.view.total = c.view.total :=
      hready.copy.sound.used.symm.trans (hready.copy_used.trans hready.sound.used)
    refine ⟨?_, fun hneg => ?_⟩
    · rw [htotal, hcopied]
      exact ih.total
    · rw [hready.copy_items, ih.negative (hcopied ▸ hneg)]
      rfl

theorem LimitKept.used_le {c : Cache κ ν} (h : c.LimitKept) : c.used ≤ max c.limit 0 := by
  have hused : c.used = c.view.total := h.reachable.ready.sound.used
  rw [hused]
  exact h.withinLimit.total

theorem LimitKept.isEmpty_of_neg {c : Cache κ ν} (h : c.LimitKept) (hneg : c.limit < 0) :
    c.isEmpty = true := by
  obtain ⟨cells, hagrees, -⟩ := h.reachable.ready.sound
  have hitems : cells.map (·.2) = [] := hagrees.items.symm.trans (h.withinLimit.negative hneg)
  exact hagrees.isEmpty.2 (List.map_eq_nil_iff.1 hitems)

/-- After an operation, space and limit can be read off the reference. -/
theorem Reachable.used_apply {c : Cache κ ν} (h : c.Reachable) (op : Operation κ ν) :
    (c.apply op).after.used = (c.view.apply op).after.total ∧
      (c.apply op).after.limit = (c.view.apply op).after.limit := by
  have hmatches := h.ready.sound.apply op
  rw [← hmatches.view]
  exact ⟨hmatches.sound.used, rfl⟩

theorem Reachable.used_put_le {c : Cache κ ν} (h : c.Reachable) {key : κ} {value : ν}
    (hstored : (c.apply (.put key value)).after.contains key = true) :
    (c.apply (.put key value)).after.used ≤ (c.apply (.put key value)).after.limit := by
  have hmatches := h.ready.sound.put key value
  obtain ⟨hlimit, htotal⟩ := h.ready.sound.wellFormed.total_put key value
  obtain ⟨hused, hafter⟩ := h.used_apply (.put key value)
  have hcontains : (c.view.put key value).after.contains key = true := by
    rw [← hmatches.view, ← hmatches.sound.contains]
    exact hstored
  rw [hused, hafter]
  show (c.view.put key value).after.total ≤ (c.view.put key value).after.limit
  rw [hlimit]
  rcases htotal with hle | ⟨-, habsent⟩
  · exact hle
  · rw [habsent] at hcontains
    contradiction

/-- While there are fewer than `2 ^ 31` entries and footprints are below `2 ^ 32`, no step of the
account leaves the range of signed 64-bit numbers. -/
theorem Reachable.budget_inRange {c : Cache κ ν} (h : c.Reachable)
    (hfootprint : ∀ entry ∈ c.chain.entries, entry.footprint < 2 ^ 32) (hfew : c.size < 2 ^ 31)
    {footprint : Int} (hmin : 0 ≤ footprint) (hmax : footprint < 2 ^ 32) :
    (c.budget.charge footprint).InRange ∧
      ∀ entry ∈ c.chain.entries, (c.budget.release entry.footprint).InRange ∧
        (c.budget.exchange entry.footprint footprint).InRange := by
  have hsound := h.ready.sound
  have hused : c.budget.used = Reference.spaceIn c.view.items := hsound.used
  have hlength : c.size = c.view.items.length := hsound.size
  have hmost : ∀ item ∈ c.view.items, item.footprint ≤ 2 ^ 32 - 1 := by
    intro item hitem
    obtain ⟨entry, hentry, rfl⟩ := List.mem_map.1 hitem
    exact Int.le_sub_one_of_lt (hfootprint entry hentry)
  have hspace := Reference.spaceIn_le hmost
  have hnonneg := hsound.used_nonneg
  refine ⟨?_, fun entry hentry => ?_⟩
  · unfold Budget.InRange Budget.charge
    constructor <;> dsimp only <;> omega
  · have hitem : entry.item ∈ c.view.items := List.mem_map_of_mem hentry
    have hlow : 0 ≤ entry.footprint := hsound.wellFormed.footprint_nonneg _ hitem
    have hhigh : entry.footprint ≤ c.budget.used :=
      hused ▸ Reference.footprint_le_spaceIn hsound.wellFormed.footprint_nonneg hitem
    unfold Budget.InRange Budget.release Budget.exchange
    refine ⟨⟨?_, ?_⟩, ?_, ?_⟩ <;> dsimp only <;> omega

/-- The space in use stays within the limit as long as copies get the limit of their source. From
any reachable cache no operation takes the space in use over the limit, nor further over it, and it
is within the limit once a value has been stored or the limit been lowered. -/
theorem used_le_limit (c : Cache κ ν) :
    (c.LimitKept → c.used ≤ max c.limit 0 ∧ (c.limit < 0 → c.isEmpty = true)) ∧
      (c.Reachable →
        (∀ op, (c.apply op).after.used ≤ max c.used (c.apply op).after.limit) ∧
        (∀ recipe, (c.withRecipe recipe).used ≤ max c.used (c.withRecipe recipe).limit) ∧
        c.copy.used ≤ max c.used c.copy.limit ∧
        (∀ key value, (c.apply (.put key value)).after.contains key = true →
          (c.apply (.put key value)).after.used ≤ (c.apply (.put key value)).after.limit) ∧
        ∀ limit < c.limit, (c.apply (.setLimit limit)).after.used ≤ max limit 0) := by
  refine ⟨fun h => ⟨h.used_le, h.isEmpty_of_neg⟩, fun h => ?_⟩
  have hwellFormed := h.ready.sound.wellFormed
  have hused : c.used = c.view.total := h.ready.sound.used
  refine ⟨fun op => ?_, fun recipe => Int.le_max_left _ _, ?_, fun _ _ => h.used_put_le, ?_⟩
  · obtain ⟨hafter, hlimit⟩ := h.used_apply op
    rw [hafter, hlimit, hused]
    exact hwellFormed.total_apply_le op
  · rw [h.ready.copy_used]
    exact Int.le_max_left _ _
  · intro limit hlt
    rw [(h.used_apply _).1]
    exact Reference.total_setLimit_le hlt hwellFormed.footprint_nonneg

/-- A copy over its limit is within it again after the next value, or under the next lower limit. -/
theorem used_le_limit_after_copy :
    let source : Cache Nat String :=
      ((((empty "demo" 3).withRecipe fun _ => Fresh.unused 1).apply (.put 1 "a")).after.apply
        (.put 2 "b")).after
    source.used ≤ max source.limit 0 ∧ source.copy.limit < source.copy.used ∧
      (source.copy.apply (.put 3 "c")).after.used ≤
        (source.copy.apply (.put 3 "c")).after.limit ∧
      (source.copy.apply (.setLimit 0)).after.used ≤ max 0 0 ∧
      (empty "demo" (-1) : Cache Nat String).isEmpty = true := by
  intro source
  have hempty : (empty "demo" 3 : Cache Nat String).LimitKept := .empty "demo" 3
  have hrecipe := hempty.withRecipe (fun _ => empty "fresh" 1) (fun _ => .empty "fresh" 1)
    (fun _ => by cbv) (fun _ => Fresh.unused 1) fun _ => rfl
  have hsource : source.LimitKept := (hrecipe.apply (.put 1 "a")).apply (.put 2 "b")
  obtain ⟨-, -, -, hput, hlower⟩ := (used_le_limit source.copy).2 hsource.reachable.copy
  have hlimit : source.copy.limit = 1 := by cbv
  have hused : source.copy.used = 2 := by cbv
  refine ⟨((used_le_limit source).1 hsource).1, by rw [hlimit, hused]; decide,
    hput 3 "c" (by cbv), hlower 0 (by rw [hlimit]; decide), ?_⟩
  exact ((used_le_limit (empty "demo" (-1))).1 (.empty "demo" (-1))).2 (by decide)

end Cache

end BudgetCache
