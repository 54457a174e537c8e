import BudgetCache.Proofs.CacheHistory
import BudgetCache.Proofs.Steps

/-!
# Evictions one by one

An operation that has to make room drops entries in a loop. Here the turns of the loop are listed,
each with the entry that it drops and the table right after it. The list belongs to the loop: its
entries are those that the loop logs and counts, in the same order. On a sound table each entry
dropped is the oldest one of that moment, and what the operation keeps is what is never dropped.
-/

namespace BudgetCache

/-- An entry that was evicted, and the table right after that. -/
structure Eviction (κ ν : Type) [BEq κ] [Hashable κ] where
  entry : Entry κ ν
  after : Table κ ν

namespace Event

/-- Whether the event tells that an entry was evicted. -/
def isEviction : Event → Bool
  | .evicted _ _ => true
  | _ => false

end Event

namespace Eviction

variable {κ ν : Type} [BEq κ] [Hashable κ]

/-- How the eviction is logged. -/
def event (e : Eviction κ ν) : Event :=
  .evicted e.entry.footprint e.entry.stamp

theorem filter_map_event (trace : List (Eviction κ ν)) :
    (trace.map event).filter Event.isEviction = trace.map event := by
  refine List.filter_eq_self.2 fun entry hentry => ?_
  obtain ⟨e, -, rfl⟩ := List.mem_map.1 hentry
  rfl

end Eviction

namespace Table

variable {κ ν : Type} [BEq κ] [Hashable κ]

/-- What `evict` drops, if the slot is not stale. -/
def eviction? (t : Table κ ν) (slot : Nat) : Option (Eviction κ ν) :=
  (t.discard slot).1.map fun entry => ⟨entry, (t.evict slot).1⟩

/-- The evictions of `evictUntil`. -/
def evictionsUntil (done : Budget → Bool) : Nat → Table κ ν → List (Eviction κ ν)
  | 0, _ => []
  | fuel + 1, t =>
    if done t.budget then []
    else
      match t.chain.oldest with
      | none => []
      | some slot =>
        (t.eviction? slot).toList ++ evictionsUntil done fuel (t.evict slot).1

/-- The evictions of `makeRoom?`. -/
def evictionsFor (t : Table κ ν) (footprint : Int) : List (Eviction κ ν) :=
  if t.budget.fits footprint then []
  else if t.budget.neverFits footprint then []
  else evictionsUntil (·.fits footprint) t.chain.size t

/-- Whether a value fits in the place of the one that its key has. -/
def updatesInPlace [Footprint ν] (t : Table κ ν) (key : κ) (value : ν) : Bool :=
  match t.index[key]? with
  | none => false
  | some slot =>
    t.budget.fitsInPlaceOf (((t.chain.get? slot).map (·.footprint)).getD 0) (spaceOf value)

/-- The evictions of an operation. -/
def evictions [Footprint ν] (t : Table κ ν) : Operation κ ν → List (Eviction κ ν)
  | .put key value =>
    if t.updatesInPlace key value then [] else (t.remove key).after.evictionsFor (spaceOf value)
  | .setLimit limit =>
    if limit < t.limit then evictionsUntil (fun b => decide (b.used ≤ limit)) t.chain.size t else []
  | _ => []

/-- The evictions of a history. -/
def evictionsIn [Footprint ν] (t : Table κ ν) : List (Operation κ ν) → List (Eviction κ ν)
  | [] => []
  | op :: ops => t.evictions op ++ (t.apply op).after.evictionsIn ops

/-! ## The list belongs to the operation -/

theorem evict_eq (t : Table κ ν) (slot : Nat) :
    (t.evict slot).2 = (t.eviction? slot).toList.map Eviction.event ∧
      (t.evict slot).1.counters.evictions =
        t.counters.evictions + (t.eviction? slot).toList.length := by
  have hcounters : (t.discard slot).2.counters = t.counters := by
    unfold discard
    split <;> rfl
  unfold eviction? evict
  split
  · next rest heq =>
    rw [heq] at hcounters ⊢
    exact ⟨rfl, congrArg Counters.evictions hcounters⟩
  · next entry rest heq =>
    rw [heq] at hcounters ⊢
    exact ⟨rfl, congrArg (·.evictions + 1) hcounters⟩

/-- The loop logs and counts the evictions listed. -/
theorem evictUntil_eq (done : Budget → Bool) (fuel : Nat) (t : Table κ ν) :
    (evictUntil done fuel t).2 = (evictionsUntil done fuel t).map Eviction.event ∧
      (evictUntil done fuel t).1.counters.evictions =
        t.counters.evictions + (evictionsUntil done fuel t).length := by
  induction fuel generalizing t with
  | zero => exact ⟨rfl, rfl⟩
  | succ fuel ih =>
    simp only [evictUntil, evictionsUntil]
    by_cases hdone : done t.budget = true
    · simp [hdone]
    · rw [if_neg hdone, if_neg hdone]
      cases t.chain.oldest with
      | none => exact ⟨rfl, rfl⟩
      | some slot =>
        obtain ⟨hevents, hcount⟩ := evict_eq t slot
        obtain ⟨hrest, hcounts⟩ := ih (t.evict slot).1
        refine ⟨?_, ?_⟩
        · rw [List.map_append, ← hevents, ← hrest]
        · rw [List.length_append, ← Nat.add_assoc, ← hcount, ← hcounts]

theorem insertAbsent_eq (t : Table κ ν) (key : κ) (value : ν) (footprint : Int) :
    (t.insertAbsent key value footprint).2.filter Event.isEviction =
        (t.evictionsFor footprint).map Eviction.event ∧
      (t.insertAbsent key value footprint).1.counters.evictions =
        t.counters.evictions + (t.evictionsFor footprint).length := by
  unfold insertAbsent makeRoom? evictionsFor
  by_cases hfits : t.budget.fits footprint = true
  · simp [hfits, push]
  · rw [if_neg hfits, if_neg hfits]
    by_cases hnever : t.budget.neverFits footprint = true
    · simp [hnever, Counters.rejection, Event.isEviction]
    · rw [if_neg hnever, if_neg hnever]
      obtain ⟨hevents, hcount⟩ := evictUntil_eq (·.fits footprint) t.chain.size t
      refine ⟨?_, hcount⟩
      rw [← Eviction.filter_map_event, ← hevents]

theorem counters_remove (t : Table κ ν) (key : κ) : (t.remove key).after.counters = t.counters := by
  unfold remove
  cases t.index[key]? with
  | none => rfl
  | some slot =>
    show (t.discard slot).2.counters = t.counters
    unfold discard
    split <;> rfl

variable [Footprint ν]

theorem put_of_updates {t : Table κ ν} {key : κ} {value : ν}
    (h : t.updatesInPlace key value = true) :
    t.evictions (.put key value) = [] ∧ ∃ slot, t.put key value =
      { reply := value, after := t.replaceAt slot value (spaceOf value) } := by
  refine ⟨if_pos h, ?_⟩
  unfold updatesInPlace at h
  unfold put
  cases hslot : t.index[key]? with
  | none => simp [hslot] at h
  | some slot =>
    rw [hslot] at h
    exact ⟨slot, if_pos h⟩

/-- A value that does not fit in the place of the old one is stored as if its key had been
removed. -/
theorem put_of_not_updates {t : Table κ ν} {key : κ} {value : ν}
    (h : t.updatesInPlace key value = false) :
    t.evictions (.put key value) = (t.remove key).after.evictionsFor (spaceOf value) ∧
      t.put key value =
        { reply := value
          after := ((t.remove key).after.insertAbsent key value (spaceOf value)).1
          events := ((t.remove key).after.insertAbsent key value (spaceOf value)).2 } := by
  refine ⟨if_neg (ne_true_of_eq_false h), ?_⟩
  unfold updatesInPlace at h
  unfold put remove
  cases hslot : t.index[key]? with
  | none => rfl
  | some slot =>
    rw [hslot] at h
    exact if_neg (ne_true_of_eq_false h)

/-- An operation logs and counts the evictions listed, and no others. -/
theorem evictions_eq (t : Table κ ν) (op : Operation κ ν) :
    (t.apply op).events.filter Event.isEviction = (t.evictions op).map Eviction.event ∧
      (t.apply op).after.counters.evictions =
        t.counters.evictions + (t.evictions op).length := by
  cases op with
  | put key value =>
    show (t.put key value).events.filter Event.isEviction = _ ∧
      (t.put key value).after.counters.evictions = _
    cases hplace : t.updatesInPlace key value with
    | true =>
      obtain ⟨hnone, slot, hput⟩ := put_of_updates hplace
      rw [hnone, hput]
      refine ⟨rfl, ?_⟩
      show (t.replaceAt slot value (spaceOf value)).counters.evictions = _
      unfold replaceAt
      split <;> rfl
    | false =>
      obtain ⟨hevents, hcount⟩ :=
        (t.remove key).after.insertAbsent_eq key value (spaceOf value)
      rw [counters_remove] at hcount
      rw [(put_of_not_updates hplace).1, (put_of_not_updates hplace).2]
      exact ⟨hevents, hcount⟩
  | get key =>
    show (t.get key).events.filter Event.isEviction = [] ∧
      (t.get key).after.counters.evictions = t.counters.evictions
    unfold get
    split <;> exact ⟨rfl, rfl⟩
  | peek key => exact ⟨rfl, rfl⟩
  | storedKey key => exact ⟨rfl, rfl⟩
  | contains key => exact ⟨rfl, rfl⟩
  | remove key =>
    refine ⟨?_, congrArg Counters.evictions (counters_remove t key)⟩
    show (t.remove key).events.filter Event.isEviction = []
    unfold remove
    split <;> rfl
  | erase key =>
    refine ⟨?_, congrArg Counters.evictions (counters_remove t key)⟩
    show (t.remove key).events.filter Event.isEviction = []
    unfold remove
    split <;> rfl
  | clear => exact ⟨rfl, rfl⟩
  | setLimit limit =>
    show (t.setLimit limit).events.filter Event.isEviction = _ ∧
      (t.setLimit limit).after.counters.evictions = _
    by_cases hlt : limit < t.limit
    · obtain ⟨hevents, hcount⟩ :=
        evictUntil_eq (fun b => decide (b.used ≤ limit)) t.chain.size t
      simp only [setLimit, evictions, if_pos hlt]
      refine ⟨?_, hcount⟩
      rw [← Eviction.filter_map_event, ← hevents, List.filter_append]
      exact List.append_nil _
    · simp only [setLimit, evictions, if_neg hlt]
      exact ⟨rfl, rfl⟩

/-- A history logs and counts the evictions listed, and no others. -/
theorem evictionsIn_eq (t : Table κ ν) (ops : List (Operation κ ν)) :
    (t.run ops).events.filter Event.isEviction = (t.evictionsIn ops).map Eviction.event ∧
      (t.run ops).after.counters.evictions =
        t.counters.evictions + (t.evictionsIn ops).length := by
  induction ops generalizing t with
  | nil => exact ⟨rfl, rfl⟩
  | cons op ops ih =>
    obtain ⟨hevents, hcount⟩ := evictions_eq t op
    obtain ⟨hrest, hcounts⟩ := ih (t.apply op).after
    simp only [run, evictionsIn]
    refine ⟨?_, ?_⟩
    · rw [List.filter_append, hevents, hrest, List.map_append]
    · rw [hcounts, hcount, List.length_append, Nat.add_assoc]

end Table

/-! ## What the evictions leave -/

/-- The evictions take the items of `base` one after the other, the oldest first, until those in
`kept` are left. -/
structure EvictedFrom {κ ν : Type} [BEq κ] [Hashable κ] (base : Reference κ ν)
    (trace : List (Eviction κ ν)) (kept : List (Item κ ν)) : Prop where
  items : base.items = kept ++ (trace.map (·.entry.item)).reverse
  after : ∀ e ∈ trace,
    e.after.view.items ++ [e.entry.item] <+: base.items ∧ e.after.view.clock = base.clock

namespace Table

variable {κ ν : Type} [BEq κ] [Hashable κ]

theorem evictedFrom_nil (base : Reference κ ν) : EvictedFrom base [] base.items :=
  ⟨by simp, by simp⟩

variable [EquivBEq κ] [LawfulHashable κ]

theorem Agrees.evictedFrom {t : Table κ ν} {cells : List (Nat × Item κ ν)} (h : t.Agrees cells)
    (done : Budget → Bool) (fuel : Nat) :
    EvictedFrom t.view (evictionsUntil done fuel t)
      (Table.evictUntil done fuel t).1.view.items := by
  induction fuel generalizing t cells with
  | zero => exact evictedFrom_nil t.view
  | succ fuel ih =>
    simp only [Table.evictUntil, evictionsUntil]
    by_cases hdone : done t.budget = true
    · rw [if_pos hdone, if_pos hdone]
      exact evictedFrom_nil t.view
    · rw [if_neg hdone, if_neg hdone]
      rcases List.eq_nil_or_concat' cells with rfl | ⟨cells, ⟨slot, item⟩, rfl⟩
      · have holdest : t.chain.oldest = none := h.chain.ordered.oldest
        rw [holdest]
        exact evictedFrom_nil t.view
      · have holdest : t.chain.oldest = some slot := by
          rw [h.chain.ordered.oldest]
          simp
        obtain ⟨entry, hentry, rfl, -⟩ := h.discard
        obtain ⟨hevicted, hview, -⟩ := h.evict
        have heviction : t.eviction? slot = some ⟨entry, (t.evict slot).1⟩ := by
          rw [eviction?, hentry]
          rfl
        have hitems : t.view.items = t.view.pop.items ++ [entry.item] := by
          simp [Reference.pop, h.items]
        obtain ⟨hrest, hafter⟩ := ih hevicted
        rw [hview] at hrest hafter
        rw [holdest]
        simp only [heviction, Option.toList_some]
        refine ⟨?_, fun e he => ?_⟩
        · rw [hitems, hrest]
          simp
        · rcases List.mem_cons.1 he with rfl | hmem
          · show (t.evict slot).1.view.items ++ [entry.item] <+: _ ∧ _
            rw [hview, ← hitems]
            exact ⟨List.prefix_rfl, rfl⟩
          · obtain ⟨hinitial, hclock⟩ := hafter e hmem
            refine ⟨hinitial.trans ?_, hclock⟩
            rw [hitems]
            exact List.prefix_append _ _

variable [Footprint ν]

/-- Making room for a value evicts what does not fit beside it. -/
theorem Sound.evictionsFor {t : Table κ ν} (h : t.Sound) {footprint : Int}
    (hle : footprint ≤ t.view.limit) :
    EvictedFrom t.view (t.evictionsFor footprint)
      (Reference.fitting (t.view.limit - footprint) t.view.items) := by
  have hnonneg := h.wellFormed.footprint_nonneg
  have hused : t.budget.used = t.view.total := h.used
  unfold Table.evictionsFor
  by_cases hfits : t.budget.fits footprint = true
  · have hle : t.budget.used + footprint ≤ t.budget.limit := of_decide_eq_true hfits
    rw [if_pos hfits, Reference.fitting_of_le _ hnonneg]
    · exact evictedFrom_nil t.view
    · show t.view.total ≤ t.budget.limit - footprint
      omega
  · have hnever : ¬t.budget.neverFits footprint = true := by
      have hle' : footprint ≤ t.budget.limit := hle
      simpa [Budget.neverFits] using hle'
    obtain ⟨cells, hagrees, hfair⟩ := h
    obtain ⟨roomy, events, rest, hroom, -, -, hpop⟩ := hagrees.makeRoom? hfair hle
    have hroomy : roomy = (Table.evictUntil (·.fits footprint) t.chain.size t).1 := by
      rw [Table.makeRoom?, if_neg hfits, if_neg hnever, Option.some.injEq] at hroom
      rw [hroom]
    have hover : (fun total => decide (t.view.limit < total + footprint)) =
        fun total => decide (t.view.limit - footprint < total) := by
      funext total
      exact decide_eq_decide.2 Int.sub_lt_iff.symm
    rw [hover, Reference.popWhile_eq _ hnonneg, Prod.mk.injEq] at hpop
    have hkept : roomy.view.items =
        Reference.fitting (t.view.limit - footprint) t.view.items := by
      rw [hpop.1]
      rfl
    rw [if_neg hfits, if_neg hnever, ← hkept, hroomy]
    exact hagrees.evictedFrom _ _

/-- Lowering the limit evicts what does not fit into the new one. -/
theorem Sound.evictions_setLimit {t : Table κ ν} (h : t.Sound) (limit : Int) :
    EvictedFrom t.view (t.evictions (.setLimit limit))
      (if limit < t.view.limit then Reference.fitting limit t.view.items else t.view.items) := by
  have hitems := (Reference.items_setLimit h.wellFormed.footprint_nonneg limit).1
  rw [← hitems, ← (h.setLimit limit).view]
  obtain ⟨cells, hagrees, -⟩ := h
  by_cases hlt : limit < t.limit
  · simp only [Table.setLimit, evictions, if_pos hlt]
    exact hagrees.evictedFrom _ _
  · simp only [Table.setLimit, evictions, if_neg hlt]
    exact evictedFrom_nil t.view

omit [EquivBEq κ] [LawfulHashable κ] in
theorem Sound.updatesInPlace {t : Table κ ν} (h : t.Sound) (key : κ) (value : ν) :
    t.updatesInPlace key value = t.view.updatesInPlace key value := by
  have hused : t.budget.used = t.view.total := h.used
  obtain ⟨cells, hagrees, -⟩ := h
  unfold Table.updatesInPlace Reference.updatesInPlace
  cases hcell : cell? cells key with
  | none =>
    obtain ⟨hindex, hfind⟩ := hagrees.absent hcell
    simp [hindex, hfind]
  | some cell =>
    obtain ⟨slot, item⟩ := cell
    obtain ⟨hindex, hfind⟩ := hagrees.present hcell
    obtain ⟨-, xs, ys, rfl⟩ := exists_of_cell? hcell
    obtain ⟨entry, hentry, rfl⟩ := hagrees.chain.get?_middle
    simp only [hindex, hfind, hentry, Budget.fitsInPlaceOf, hused]
    rfl

/-- A value that is too large evicts nothing. -/
theorem Sound.evictions_put_of_lt {t : Table κ ν} (h : t.Sound) (key : κ) {value : ν}
    (hlarge : t.view.limit < spaceOf value) : t.evictions (.put key value) = [] := by
  have hplace : t.updatesInPlace key value = false := by
    by_contra hplace
    rw [Bool.not_eq_false, h.updatesInPlace] at hplace
    exact Int.not_le.2 hlarge (h.wellFormed.le_of_updates hplace)
  have hremoved := h.remove key
  have hused : 0 ≤ (t.remove key).after.budget.used := hremoved.sound.used_nonneg
  have hlimit : (t.remove key).after.budget.limit = t.view.limit :=
    congrArg Reference.limit hremoved.view
  rw [(put_of_not_updates hplace).1, Table.evictionsFor, if_neg, if_pos]
  · simpa [Budget.neverFits, hlimit] using hlarge
  · simp only [Budget.fits, decide_eq_true_eq]
    omega

/-- A value that is stored evicts what does not fit beside it of the other keys. -/
theorem Sound.evictions_put_of_le {t : Table κ ν} (h : t.Sound) (key : κ) {value : ν}
    (hsmall : spaceOf value ≤ t.view.limit) :
    EvictedFrom (t.view.without key) (t.evictions (.put key value))
      (Reference.fitting (t.view.limit - spaceOf value) (Reference.others key t.view.items)) := by
  cases hplace : t.updatesInPlace key value with
  | true =>
    -- The value fits in the place of the old one, so all the other items fit beside it.
    rw [(put_of_updates hplace).1]
    rw [h.updatesInPlace] at hplace
    obtain ⟨item, hfind, hfits⟩ := Reference.exists_of_updates hplace
    have htotal := h.wellFormed.total_without hfind
    have hle : (t.view.without key).total ≤ t.view.limit - spaceOf value := by omega
    have hall : Reference.fitting (t.view.limit - spaceOf value)
        (Reference.others key t.view.items) = (t.view.without key).items :=
      Reference.fitting_of_le hle (h.wellFormed.without_nonneg key)
    rw [hall]
    exact evictedFrom_nil (t.view.without key)
  | false =>
    have hremoved := h.remove key
    have hview : (t.remove key).after.view = t.view.without key := hremoved.view
    have hfits : spaceOf value ≤ (t.remove key).after.view.limit := by
      rw [hview]
      exact hsmall
    have htrace := hremoved.sound.evictionsFor hfits
    rw [hview] at htrace
    rw [(put_of_not_updates hplace).1]
    exact htrace

/-- The evictions of an operation take items from the oldest on, and what is left of the base is
what the step keeps. -/
theorem Sound.exists_evictedFrom {t : Table κ ν} (h : t.Sound) (op : Operation κ ν) :
    ∃ touched kept base, t.view.Step op (t.view.apply op) touched kept ∧
      base.items.Sublist t.view.items ∧ base.clock = t.view.clock ∧
      EvictedFrom base (t.evictions op) kept := by
  have hnone : t.evictions op = [] → ∃ touched kept base,
      t.view.Step op (t.view.apply op) touched kept ∧ base.items.Sublist t.view.items ∧
        base.clock = t.view.clock ∧ EvictedFrom base (t.evictions op) kept := by
    intro htrace
    obtain ⟨touched, kept, hstep⟩ := h.wellFormed.exists_step op
    refine ⟨touched, kept, { t.view with items := kept }, hstep, hstep.sublist, rfl, ?_⟩
    rw [htrace]
    exact evictedFrom_nil _
  cases op with
  | put key value =>
    by_cases hlarge : t.view.limit < spaceOf value
    · exact hnone (h.evictions_put_of_lt key hlarge)
    · obtain ⟨stored, hstep⟩ := h.wellFormed.step_put_of_le key (Int.not_lt.1 hlarge)
      exact ⟨_, _, t.view.without key, hstep, Reference.others_sublist key _, rfl,
        h.evictions_put_of_le key (Int.not_lt.1 hlarge)⟩
  | setLimit limit =>
    exact ⟨_, _, t.view, h.wellFormed.step_setLimit limit, List.Sublist.refl _, rfl,
      h.evictions_setLimit limit⟩
  | get key => exact hnone rfl
  | peek key => exact hnone rfl
  | storedKey key => exact hnone rfl
  | contains key => exact hnone rfl
  | remove key => exact hnone rfl
  | erase key => exact hnone rfl
  | clear => exact hnone rfl

end Table

end BudgetCache
