import BudgetCache.Proofs.AuditTrail
import BudgetCache.Proofs.Lowering
import BudgetCache.Proofs.Storing
import Mathlib

/-!
# Making room beforehand

There are two occasions to drop entries, and they stop at different conditions: room for a value is
made until the value fits beside the rest, and a lower limit is honoured until the rest stays within
it. A limit that is lower by the footprint of a value makes the same room. So whoever lowers the
limit by that much, puts it back and stores the value ends where storing the value at once ends.
Then nothing more has to be dropped for the value, unless it takes no space and the cache was over
its limit from the start: such a cache is not lowered at all.
-/

namespace BudgetCache

namespace Reference

variable {κ ν : Type}

/-- A lower limit evicts what does not fit into it, and so does a limit that stays as it is if
everything is within it. -/
theorem filter_events_setLimit {r : Reference κ ν} (hnonneg : ∀ item ∈ r.items, 0 ≤ item.footprint)
    {limit : Int} (h : r.limit ≤ limit → r.total ≤ limit) :
    (r.setLimit limit).events.filter Event.isEviction = r.lostFitting limit := by
  by_cases hlower : limit < r.limit
  · have hall : (r.lostFitting limit).filter Event.isEviction = r.lostFitting limit :=
      filter_map_eviction _
    rw [setLimit_of_lt hlower hnonneg, List.filter_append, hall]
    exact List.append_nil _
  · have hlost : r.lostFitting limit = [] := (keepFitting_of_le (h (by omega)) hnonneg).2
    unfold Reference.setLimit
    rw [if_neg hlower, hlost]
    rfl

/-- A limit that is lowered and put back leaves what fits into the lower one. -/
theorem after_lowered_restored {r : Reference κ ν}
    (hnonneg : ∀ item ∈ r.items, 0 ≤ item.footprint) {limit : Int} (hle : limit ≤ r.limit)
    (h : r.limit ≤ limit → r.total ≤ limit) :
    ((r.setLimit limit).after.setLimit r.limit).after = r.keepFitting limit := by
  have hlowered : (r.setLimit limit).after = { r.keepFitting limit with limit } :=
    after_setLimit_eq hnonneg fun hraised => .inr (h hraised)
  rw [hlowered]
  unfold Reference.setLimit
  rw [if_neg (Int.not_lt.2 hle)]
  rfl

variable [BEq κ] [Footprint ν]

/-- A value that is stored under an absent key comes to stand in front of what fits beside it. -/
theorem put_absent {r : Reference κ ν} (hnonneg : ∀ item ∈ r.items, 0 ≤ item.footprint) {key : κ}
    (habsent : r.find? key = none) {value : ν} (hsmall : spaceOf value ≤ r.limit) :
    r.put key value =
      { reply := value
        after := (r.keepFitting (r.limit - spaceOf value)).pushFront key value (spaceOf value)
        events := r.lostFitting (r.limit - spaceOf value) } := by
  have hwithout : r.without key = r := by
    rw [without, others_eq_self (find?_eq_none_iff.1 habsent)]
  unfold put
  rw [habsent]
  dsimp only
  rw [hwithout, insertAbsent_of_le hsmall hnonneg]

/-- What fits beside the value stays when the value is stored. -/
theorem put_keepFitting {r : Reference κ ν} (hnonneg : ∀ item ∈ r.items, 0 ≤ item.footprint)
    {key : κ} (habsent : r.find? key = none) {value : ν} (hsmall : spaceOf value ≤ r.limit) :
    let roomy := r.keepFitting (r.limit - spaceOf value)
    roomy.put key value =
      { reply := value, after := roomy.pushFront key value (spaceOf value) } := by
  intro roomy
  have hkept : fitting (r.limit - spaceOf value) r.items <+: r.items := fitting_prefix_items _ _
  have hnonneg' : ∀ item ∈ roomy.items, 0 ≤ item.footprint := by
    intro item hitem
    exact hnonneg item (hkept.subset hitem)
  have habsent' : roomy.find? key = none := by
    rw [find?_eq_none_iff] at habsent ⊢
    intro item hitem
    exact habsent item (hkept.subset hitem)
  have hfits : roomy.total ≤ r.limit - spaceOf value :=
    spaceIn_fitting_le (by omega) r.items
  obtain ⟨hkeep, hlost⟩ := keepFitting_of_le hfits hnonneg'
  have hput : roomy.put key value =
      { reply := value
        after := (roomy.keepFitting (r.limit - spaceOf value)).pushFront key value (spaceOf value)
        events := roomy.lostFitting (r.limit - spaceOf value) } :=
    put_absent hnonneg' habsent' hsmall
  rw [hput, hkeep, hlost]

/-- Storing a value after room was made for it and storing it at once leave the same. If room was
made indeed, it is all the room that the value needs. -/
theorem put_restored {r : Reference κ ν} (hnonneg : ∀ item ∈ r.items, 0 ≤ item.footprint) {key : κ}
    (habsent : r.find? key = none) {value : ν} (hsmall : spaceOf value ≤ r.limit) :
    let lowered := r.setLimit (r.limit - spaceOf value)
    let restored := lowered.after.setLimit r.limit
    (restored.after.put key value).after = (r.put key value).after ∧
      (r.total ≤ r.limit ∨ 1 ≤ spaceOf value →
        restored.after.put key value =
            { reply := value, after := restored.after.pushFront key value (spaceOf value) } ∧
          restored.after.clock = r.clock ∧
          lowered.events.filter Event.isEviction = (r.put key value).events) := by
  intro lowered restored
  have hfootprint : 0 ≤ spaceOf value := spaceOf_nonneg value
  have hdirect := put_absent hnonneg habsent hsmall
  by_cases hroom : r.total ≤ r.limit ∨ 1 ≤ spaceOf value
  · have hwithin : r.limit ≤ r.limit - spaceOf value → r.total ≤ r.limit - spaceOf value := by
      intro hraised
      omega
    have hrestored : restored.after = r.keepFitting (r.limit - spaceOf value) :=
      after_lowered_restored hnonneg (by omega) hwithin
    have hlate := put_keepFitting hnonneg habsent hsmall
    have hlowered := filter_events_setLimit hnonneg hwithin
    rw [hrestored, hlate, hdirect]
    exact ⟨rfl, fun _ => ⟨rfl, rfl, hlowered⟩⟩
  · -- a value without footprint leaves no limit to lower
    have hnothing : restored.after = r := by
      have hsame : r.limit - spaceOf value = r.limit := by omega
      show ((r.setLimit (r.limit - spaceOf value)).after.setLimit r.limit).after = r
      unfold Reference.setLimit
      simp only [hsame, lt_irrefl, if_false]
    rw [hnothing]
    exact ⟨rfl, fun h => absurd h hroom⟩

end Reference

namespace Cache

variable {κ ν : Type} [BEq κ] [Hashable κ] [Footprint ν] [EquivBEq κ] [LawfulHashable κ]

theorem Ready.view_setLimit {c : Cache κ ν} (h : c.Ready) (limit : Int) :
    (c.apply (.setLimit limit)).after.view = (c.view.setLimit limit).after :=
  (h.sound.setLimit limit).view

theorem Ready.find?_eq_none {c : Cache κ ν} (h : c.Ready) {key : κ}
    (habsent : c.contains key = false) : c.view.find? key = none := by
  have hcontains := h.sound.contains key
  rw [habsent, Reference.contains] at hcontains
  exact Option.isNone_iff_eq_none.1 (Option.isSome_eq_false_iff.1 hcontains.symm)

/-- A value under an absent key can be stored at once, or after the limit was lowered by its
footprint and put back: what can be seen afterwards is the same. The same entries are evicted for
it, in the same order, but by the lower limit, and storing the value evicts nothing more. -/
theorem Reachable.put_after_lowering {c : Cache κ ν} (h : c.Reachable) {key : κ} {value : ν}
    (habsent : c.contains key = false) (hsmall : spaceOf value ≤ c.limit) :
    let direct := c.apply (.put key value)
    let lowered := c.apply (.setLimit (c.limit - spaceOf value))
    let restored := lowered.after.apply (.setLimit c.limit)
    let late := restored.after.apply (.put key value)
    late.reply = direct.reply ∧ late.after.toTable.ShowsSame direct.after.toTable ∧
      (c.used ≤ c.limit ∨ 1 ≤ spaceOf value →
        late.events = [] ∧ late.after.counters = restored.after.counters ∧
        late.after.chain.entries.map Entry.item =
          ⟨key, value, spaceOf value, c.chain.clock⟩ ::
            restored.after.chain.entries.map Entry.item ∧
        lowered.events.filter Event.isEviction = direct.events) := by
  intro direct lowered restored late
  have hready := h.ready
  have hready' : lowered.after.Ready := hready.apply (.setLimit (c.limit - spaceOf value))
  have hready'' : restored.after.Ready := hready'.apply (.setLimit c.limit)
  have hnonneg := hready.sound.wellFormed.footprint_nonneg
  have hdirect := hready.sound.put key value
  have hlate := hready''.sound.put key value
  have hrestored : restored.after.view =
      ((c.view.setLimit (c.view.limit - spaceOf value)).after.setLimit c.view.limit).after := by
    rw [hready'.view_setLimit, hready.view_setLimit]
    rfl
  obtain ⟨hsame, hmade⟩ := Reference.put_restored hnonneg (hready.find?_eq_none habsent) hsmall
  rw [← hrestored] at hsame hmade
  refine ⟨?_, ?_, ?_⟩
  · have hecho : late.reply = .echo value :=
      congrArg Reply.echo (restored.after.toTable.reply_put key value)
    rw [hecho]
    exact congrArg Reply.echo (c.toTable.reply_put key value).symm
  · have hshows := hlate.sound.showsAs
    rw [hlate.view, hsame, ← hdirect.view] at hshows
    exact hshows.showsSame hdirect.sound.showsAs
  · intro hroom
    have hused : c.used = c.view.total := hready.sound.used
    rw [hused] at hroom
    obtain ⟨hput, hclock, hlog⟩ := hmade hroom
    rw [hput] at hlate
    have hview : late.after.view = restored.after.view.pushFront key value (spaceOf value) :=
      hlate.view
    have hitems : late.after.chain.entries.map Entry.item =
        ⟨key, value, spaceOf value, restored.after.chain.clock⟩ ::
          restored.after.chain.entries.map Entry.item := congrArg Reference.items hview
    have hstamp : restored.after.chain.clock = c.chain.clock := hclock
    have hvictims : lowered.events = (c.view.setLimit (c.view.limit - spaceOf value)).events :=
      (hready.sound.setLimit (c.limit - spaceOf value)).events
    refine ⟨hlate.events, congrArg Reference.counters hview, ?_, ?_⟩
    · rw [hitems, hstamp]
    · rw [hvictims, hlog]
      exact hdirect.events.symm

/-- An artifact of two units needs two evictions, in a cache that is full as well as in a copy that
is over its limit. -/
theorem put_after_lowering_copy :
    let source : Cache Nat Artifact :=
      (((empty "demo" 5).withRecipe fun _ => Fresh.unused 4).run
        [.put 1 ⟨"a", 1⟩, .put 2 ⟨"b", 2⟩, .put 3 ⟨"c", 2⟩]).after
    let value : Artifact := ⟨"x", 2⟩
    (source.contains 4 = false ∧ source.used = 5 ∧ source.limit = 5 ∧
      (((source.apply (.setLimit 3)).after.apply (.setLimit 5)).after.apply
        (.put 4 value)).after.toTable.ShowsSame (source.apply (.put 4 value)).after.toTable ∧
      (source.apply (.put 4 value)).events = [.evicted 1 0, .evicted 2 1]) ∧
    source.copy.contains 4 = false ∧ source.copy.used = 5 ∧ source.copy.limit = 4 ∧
      (((source.copy.apply (.setLimit 2)).after.apply (.setLimit 4)).after.apply
        (.put 4 value)).after.toTable.ShowsSame (source.copy.apply (.put 4 value)).after.toTable ∧
      (((source.copy.apply (.setLimit 2)).after.apply (.setLimit 4)).after.apply
        (.put 4 value)).events = [] ∧
      (source.copy.apply (.put 4 value)).events = [.evicted 1 0, .evicted 2 1] := by
  intro source value
  have hempty : (empty "demo" 5 : Cache Nat Artifact).Reachable := .empty "demo" 5
  have hrecipe := hempty.withUnused 4
  have hsource : source.Reachable :=
    ((hrecipe.apply (.put 1 ⟨"a", 1⟩)).apply (.put 2 ⟨"b", 2⟩)).apply (.put 3 ⟨"c", 2⟩)
  have habsent : source.contains 4 = false := by cbv
  have habsent' : source.copy.contains 4 = false := by cbv
  have hlimit : source.limit = 5 := by cbv
  have hlimit' : source.copy.limit = 4 := by cbv
  have hsmall : spaceOf value ≤ source.limit := by
    rw [hlimit]
    decide
  have hsmall' : spaceOf value ≤ source.copy.limit := by
    rw [hlimit']
    decide
  obtain ⟨-, hshows, -⟩ := hsource.put_after_lowering habsent hsmall
  obtain ⟨-, hshows', hroom⟩ := hsource.copy.put_after_lowering habsent' hsmall'
  obtain ⟨hnone, -⟩ := hroom (.inr (by decide))
  rw [hlimit] at hshows
  rw [hlimit'] at hshows' hnone
  exact ⟨⟨habsent, by cbv, hlimit, hshows, by cbv⟩, habsent', by cbv, hlimit', hshows', hnone,
    by cbv⟩

end Cache

end BudgetCache
