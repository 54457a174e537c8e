import BudgetCache.Proofs.Evictions
import BudgetCache.Proofs.Reachable
import BudgetCache.Script.Artifact
import Mathlib

/-!
# The log as an audit trail

Whoever reads the events of a cache can tell from them what has been evicted: each item that was
lost has an event of its own with the footprint and the stamp that it had, and the events come in
the order of the stamps. A value that is refused leaves one event, and so do a lower limit and the
dropping of all entries. Each event is worded as one line of the log. Since nothing else is told,
the events of a history number what its counters have grown by.
-/

namespace BudgetCache

/-- How the eviction of an item is logged. -/
def Item.eviction {κ ν : Type} (item : Item κ ν) : Event :=
  .evicted item.footprint item.stamp

/-- The log line on the eviction of an item from a cache called `name`. -/
def Item.evictionLine {κ ν : Type} (name : String) (item : Item κ ν) : LogLine :=
  ⟨.debug, name ++ ": evicted entry with footprint " ++ Decimal.ofInt item.footprint ++
    " (timestamp " ++ Decimal.ofNat item.stamp ++ ")"⟩

theorem map_logLine_eviction {κ ν : Type} (name : String) (items : List (Item κ ν)) :
    (items.map Item.eviction).map (·.logLine name) = items.map (Item.evictionLine name) := by
  rw [List.map_map]
  rfl

/-- Whether the event tells that a value was refused. -/
def Event.isRejection : Event → Bool
  | .rejected _ _ => true
  | _ => false

/-- What the items that are gone leave in the log: an event each, in the order of their stamps. -/
structure Told {κ ν : Type} (gone : List (Item κ ν)) (events : List Event) : Prop where
  each : events = gone.map Item.eviction
  increasing : gone.Pairwise fun a b => a.stamp < b.stamp

/-- The counters of evictions and of refusals have grown by the numbers of their events. -/
structure Counters.GrownBy (before after : Counters) (events : List Event) : Prop where
  evictions : after.evictions = before.evictions + events.countP Event.isEviction
  rejections : after.rejections = before.rejections + events.countP Event.isRejection

namespace Counters

variable {c d e : Counters} {events events' : List Event}

theorem grownBy_nil (c : Counters) : c.GrownBy c [] :=
  ⟨rfl, rfl⟩

theorem GrownBy.append (h : c.GrownBy d events) (h' : d.GrownBy e events') :
    c.GrownBy e (events ++ events') := by
  constructor
  case evictions =>
    rw [h'.evictions, h.evictions, List.countP_append]
    omega
  case rejections =>
    rw [h'.rejections, h.rejections, List.countP_append]
    omega

end Counters

namespace Reference

variable {κ ν : Type}

theorem filter_map_eviction (items : List (Item κ ν)) :
    (items.map Item.eviction).filter Event.isEviction = items.map Item.eviction := by
  refine List.filter_eq_self.2 fun event hevent => ?_
  obtain ⟨item, -, rfl⟩ := List.mem_map.1 hevent
  rfl

theorem countP_map_eviction (items : List (Item κ ν)) :
    (items.map Item.eviction).countP Event.isEviction = items.length ∧
      (items.map Item.eviction).countP Event.isRejection = 0 := by
  constructor
  · rw [List.countP_eq_length_filter, filter_map_eviction, List.length_map]
  · rw [List.countP_eq_zero]
    intro event hevent
    obtain ⟨item, -, rfl⟩ := List.mem_map.1 hevent
    exact Bool.false_ne_true

/-- The items that do not fit are told, from the last one on. -/
theorem told_lostFitting {r : Reference κ ν}
    (h : r.items.Pairwise fun a b => b.stamp < a.stamp) (room : Int) :
    ∃ gone, r.items = fitting room r.items ++ gone.reverse ∧ Told gone (r.lostFitting room) := by
  obtain ⟨dropped, hdropped⟩ := fitting_prefix_items room r.items
  have htold : r.items.drop (fitting room r.items).length = dropped := by
    have hdrop : (fitting room r.items ++ dropped).drop (fitting room r.items).length = dropped :=
      List.drop_left
    rw [hdropped] at hdrop
    exact hdrop
  refine ⟨dropped.reverse, ?_, ?_, ?_⟩
  · rw [List.reverse_reverse, hdropped]
  · show (r.items.drop _).reverse.map Item.eviction = _
    rw [htold]
  · rw [List.pairwise_reverse]
    rw [← hdropped, List.pairwise_append] at h
    exact h.2.1

/-- Keeping what fits counts the items that do not, and these are the ones told. -/
theorem grownBy_keepFitting (r : Reference κ ν) (room : Int) :
    r.counters.GrownBy (r.keepFitting room).counters (r.lostFitting room) := by
  obtain ⟨hevictions, hrejections⟩ :=
    countP_map_eviction (r.items.drop (fitting room r.items).length).reverse
  rw [List.length_reverse, List.length_drop] at hevictions
  constructor
  case evictions =>
    show _ = _ + ((r.items.drop _).reverse.map Item.eviction).countP Event.isEviction
    rw [hevictions]
    rfl
  case rejections =>
    show _ = _ + ((r.items.drop _).reverse.map Item.eviction).countP Event.isRejection
    rw [hrejections]
    rfl

/-- The items fall into those that stay within the lower limit and those that are told. -/
theorem WellFormed.setLimit_told [BEq κ] [Footprint ν] {r : Reference κ ν} (h : r.WellFormed)
    {limit : Int} (hlower : limit < r.limit) :
    ∃ gone : List (Item κ ν), r.items = (r.setLimit limit).after.items ++ gone.reverse ∧
      (r.setLimit limit).events =
        gone.map Item.eviction ++ [.limitLowered r.limit limit gone.length] ∧
      gone.Pairwise fun a b => a.stamp < b.stamp := by
  obtain ⟨gone, hsplit, htold, hincreasing⟩ := told_lostFitting h.descending limit
  have hcount : r.items.length - (fitting limit r.items).length = gone.length := by
    have hlength := congrArg List.length hsplit
    rw [List.length_append, List.length_reverse] at hlength
    omega
  rw [setLimit_of_lt hlower h.footprint_nonneg, hcount, htold]
  exact ⟨gone, hsplit, rfl, hincreasing⟩

variable [BEq κ] [Footprint ν] [EquivBEq κ]

/-- The items of the other keys fall into those that fit beside the value and those that are told.
The item that the key had before is not told. -/
theorem WellFormed.put_told {r : Reference κ ν} (h : r.WellFormed) (key : κ) {value : ν}
    (hsmall : spaceOf value ≤ r.limit) :
    ∃ stored kept gone, (stored == key) = true ∧ others key r.items = kept ++ gone.reverse ∧
      (r.put key value).after.items = ⟨stored, value, spaceOf value, r.clock⟩ :: kept ∧
      Told gone (r.put key value).events := by
  have hdescending : (r.without key).items.Pairwise fun a b => b.stamp < a.stamp :=
    h.descending.sublist (others_sublist key r.items)
  obtain ⟨stored, hstored, hput⟩ := h.put_of_le key hsmall
  obtain ⟨gone, hsplit, htold⟩ := told_lostFitting hdescending (r.limit - spaceOf value)
  rw [hput]
  exact ⟨stored, _, gone, hstored, hsplit, rfl, htold⟩

/-- What an operation counts as an eviction or as a refusal it also tells. -/
theorem WellFormed.grownBy_apply {r : Reference κ ν} (h : r.WellFormed) (op : Operation κ ν) :
    r.counters.GrownBy (r.apply op).after.counters (r.apply op).events := by
  cases op with
  | put key value =>
    show r.counters.GrownBy (r.put key value).after.counters (r.put key value).events
    by_cases hlarge : r.limit < spaceOf value
    · rw [h.put_of_lt key hlarge]
      exact ⟨rfl, rfl⟩
    · obtain ⟨stored, -, hput⟩ := h.put_of_le key (Int.not_lt.1 hlarge)
      rw [hput]
      exact grownBy_keepFitting (r.without key) _
  | setLimit limit =>
    show r.counters.GrownBy (r.setLimit limit).after.counters (r.setLimit limit).events
    by_cases hlower : limit < r.limit
    · rw [setLimit_of_lt hlower h.footprint_nonneg]
      exact (grownBy_keepFitting r limit).append ⟨rfl, rfl⟩
    · unfold Reference.setLimit
      rw [if_neg hlower]
      exact Counters.grownBy_nil r.counters
  | get key =>
    show r.counters.GrownBy (r.get key).after.counters (r.get key).events
    unfold Reference.get
    split <;> exact ⟨rfl, rfl⟩
  | peek key => exact Counters.grownBy_nil r.counters
  | storedKey key => exact Counters.grownBy_nil r.counters
  | contains key => exact Counters.grownBy_nil r.counters
  | remove key => exact Counters.grownBy_nil r.counters
  | erase key => exact Counters.grownBy_nil r.counters
  | clear => exact ⟨rfl, rfl⟩

end Reference

namespace Table

variable {κ ν : Type} [BEq κ] [Hashable κ] [Footprint ν] [EquivBEq κ] [LawfulHashable κ]

/-- What a history counts as evictions and refusals it also tells. -/
theorem Sound.grownBy_run {t : Table κ ν} (h : t.Sound) (ops : List (Operation κ ν)) :
    t.counters.GrownBy (t.run ops).after.counters (t.run ops).events := by
  induction ops generalizing t with
  | nil => exact Counters.grownBy_nil t.counters
  | cons op ops ih =>
    obtain ⟨-, hview, hevents, hsound⟩ := h.apply op
    have hfirst : t.counters.GrownBy (t.apply op).after.counters (t.apply op).events := by
      have hcounters : (t.apply op).after.counters = (t.view.apply op).after.counters :=
        congrArg Reference.counters hview
      rw [hcounters, hevents]
      exact h.wellFormed.grownBy_apply op
    exact hfirst.append (ih hsound)

/-- A value that is too large leaves one event. Any other leaves those of the items of other keys
that are evicted for it. -/
theorem Sound.events_put {t : Table κ ν} (h : t.Sound) (key : κ) (value : ν) :
    let others := Reference.others key t.view.items
    let o := t.put key value
    (t.limit < spaceOf value →
      o.after.view.items = others ∧ o.events = [.rejected (spaceOf value) t.limit]) ∧
    (spaceOf value ≤ t.limit →
      ∃ (stored : κ) (kept gone : List (Item κ ν)),
        (stored == key) = true ∧ others = kept ++ gone.reverse ∧
        o.after.view.items = ⟨stored, value, spaceOf value, t.chain.clock⟩ :: kept ∧
        o.events = gone.map Item.eviction ∧ gone.Pairwise fun a b => a.stamp < b.stamp) := by
  intro others o
  obtain ⟨-, hview, hevents, -⟩ := h.put key value
  rw [hview, hevents]
  constructor
  · intro hlarge
    rw [h.wellFormed.put_of_lt key hlarge]
    exact ⟨rfl, rfl⟩
  · intro hsmall
    obtain ⟨stored, kept, gone, hstored, hsplit, hnow, htold, hincreasing⟩ :=
      h.wellFormed.put_told key hsmall
    exact ⟨stored, kept, gone, hstored, hsplit, hnow, htold, hincreasing⟩

/-- A lower limit leaves the events of the items that it evicts and then their number. Any other
limit leaves no event. -/
theorem Sound.events_setLimit {t : Table κ ν} (h : t.Sound) (limit : Int) :
    let o := t.setLimit limit
    (limit < t.limit →
      ∃ gone : List (Item κ ν), t.view.items = o.after.view.items ++ gone.reverse ∧
        t.size = o.after.size + gone.length ∧
        o.events = gone.map Item.eviction ++ [.limitLowered t.limit limit gone.length] ∧
        gone.Pairwise fun a b => a.stamp < b.stamp) ∧
    (t.limit ≤ limit → o.after.view.items = t.view.items ∧ o.events = []) := by
  intro o
  obtain ⟨-, hview, hevents, hafter⟩ := h.setLimit limit
  constructor
  · intro hlower
    obtain ⟨gone, hsplit, htold, hincreasing⟩ := h.wellFormed.setLimit_told hlower
    rw [← hview] at hsplit
    refine ⟨gone, hsplit, ?_, ?_, hincreasing⟩
    · rw [h.size, hafter.size, hsplit, List.length_append, List.length_reverse]
    · rw [hevents, htold]
      rfl
  · intro hraised
    have hsame : t.view.setLimit limit = { reply := (), after := { t.view with limit } } :=
      if_neg (Int.not_lt.2 hraised)
    rw [hview, hevents, hsame]
    exact ⟨rfl, rfl⟩

end Table

namespace Cache

variable {κ ν : Type} [BEq κ] [Hashable κ] [Footprint ν] [EquivBEq κ] [LawfulHashable κ]

/-- A value that is too large leaves one event, and any other tells the items of other keys that are
evicted for it, as they were before. A lower limit tells the items that it evicts and then how many
there were; no other limit leaves an event. Dropping all entries tells their number. The log has a
line for each event, with the data of the event and the name of the cache. The events of a history
number what its counters of evictions and refusals grow by. -/
theorem Reachable.events_tell_evictions {c : Cache κ ν} (h : c.Reachable) :
    let items := c.chain.entries.map Entry.item
    (∀ key value,
      let others := Reference.others key items
      let o := c.apply (.put key value)
      let items' := o.after.chain.entries.map Entry.item
      let log := o.events.map (·.logLine c.name)
      (c.limit < spaceOf value →
        items' = others ∧ o.events = [.rejected (spaceOf value) c.limit] ∧
        log = [⟨.debug, c.name ++ ": rejected value with footprint " ++
          Decimal.ofInt (spaceOf value) ++ " (limit " ++ Decimal.ofInt c.limit ++ ")"⟩]) ∧
      (spaceOf value ≤ c.limit →
        ∃ (stored : κ) (kept gone : List (Item κ ν)),
          (stored == key) = true ∧ others = kept ++ gone.reverse ∧
          items' = ⟨stored, value, spaceOf value, c.chain.clock⟩ :: kept ∧
          o.events = gone.map Item.eviction ∧ (gone.Pairwise fun a b => a.stamp < b.stamp) ∧
          log = gone.map (Item.evictionLine c.name))) ∧
    (∀ limit,
      let o := c.apply (.setLimit limit)
      let items' := o.after.chain.entries.map Entry.item
      let log := o.events.map (·.logLine c.name)
      (limit < c.limit →
        ∃ gone : List (Item κ ν), items = items' ++ gone.reverse ∧
          c.size = o.after.size + gone.length ∧
          o.events = gone.map Item.eviction ++ [.limitLowered c.limit limit gone.length] ∧
          (gone.Pairwise fun a b => a.stamp < b.stamp) ∧
          log = gone.map (Item.evictionLine c.name) ++
            [⟨.debug, c.name ++ ": limit lowered from " ++ Decimal.ofInt c.limit ++ " to " ++
              Decimal.ofInt limit ++ ", evicted " ++ Decimal.ofNat gone.length ++ " entries"⟩]) ∧
      (c.limit ≤ limit → items' = items ∧ o.events = [] ∧ log = [])) ∧
    ((c.apply .clear).events = [.flushing c.size] ∧
      (c.apply .clear).events.map (·.logLine c.name) =
        [⟨.debug, c.name ++ ": flushing " ++ Decimal.ofNat c.size ++ " entries"⟩]) ∧
    ∀ ops,
      let o := c.run ops
      o.after.counters.evictions =
          c.counters.evictions + o.events.countP Event.isEviction ∧
        o.after.counters.rejections =
          c.counters.rejections + o.events.countP Event.isRejection := by
  intro items
  have hsound := h.ready.sound
  refine ⟨?_, ?_, ⟨rfl, rfl⟩, ?_⟩
  · intro key value others o items' log
    obtain ⟨hrefused, hstored⟩ := hsound.events_put key value
    refine ⟨fun hlarge => ?_, fun hsmall => ?_⟩
    · obtain ⟨hitems, hevents⟩ := hrefused hlarge
      exact ⟨hitems, hevents, congrArg (List.map (Event.logLine c.name)) hevents⟩
    · obtain ⟨stored, kept, gone, hkey, hsplit, hnow, htold, hincreasing⟩ := hstored hsmall
      have hlog : log = (gone.map Item.eviction).map (Event.logLine c.name) :=
        congrArg (List.map (Event.logLine c.name)) htold
      rw [map_logLine_eviction] at hlog
      exact ⟨stored, kept, gone, hkey, hsplit, hnow, htold, hincreasing, hlog⟩
  · intro limit o items' log
    obtain ⟨hlowered, hraised⟩ := hsound.events_setLimit limit
    refine ⟨fun hlower => ?_, fun hle => ?_⟩
    · obtain ⟨gone, hsplit, hsize, htold, hincreasing⟩ := hlowered hlower
      have hlog := congrArg (List.map (Event.logLine c.name)) htold
      rw [List.map_append, map_logLine_eviction] at hlog
      exact ⟨gone, hsplit, hsize, htold, hincreasing, hlog⟩
    · obtain ⟨hitems, hevents⟩ := hraised hle
      exact ⟨hitems, hevents, congrArg (List.map (Event.logLine c.name)) hevents⟩
  · intro ops o
    have hgrown := hsound.grownBy_run ops
    have ho : o = c.onTable (·.run ops) := c.run_eq_onTable ops
    rw [ho]
    exact ⟨hgrown.evictions, hgrown.rejections⟩

/-- A copy that is over its limit. An artifact that does not fit in the place of the old one takes
the entries of two other keys with it, whose events leave out the one that was replaced. -/
theorem events_tell_evictions_copy :
    let source : Cache Nat Artifact :=
      (((empty "demo" 5).withRecipe fun _ => Fresh.unused 4).run
        [.put 1 ⟨"a", 1⟩, .put 2 ⟨"b", 2⟩, .put 3 ⟨"c", 2⟩]).after
    let c := source.copy
    let ops : List (Operation Nat Artifact) := [.put 9 ⟨"y", 5⟩, .put 2 ⟨"x", 3⟩, .setLimit 2]
    c.limit = 4 ∧ c.used = 5 ∧
      (c.apply (.put 9 ⟨"y", 5⟩)).events = [.rejected 5 4] ∧
      (c.apply (.put 9 ⟨"y", 5⟩)).events.map (·.logLine c.name) =
        [⟨.debug, "demo: rejected value with footprint 5 (limit 4)"⟩] ∧
      (∃ (stored : Nat) (kept gone : List (Item Nat Artifact)), (stored == 2) = true ∧
        [⟨3, ⟨"c", 2⟩, 2, 2⟩, ⟨1, ⟨"a", 1⟩, 1, 0⟩] = kept ++ gone.reverse ∧
        (c.apply (.put 2 ⟨"x", 3⟩)).after.chain.entries.map Entry.item =
          ⟨stored, ⟨"x", 3⟩, 3, 3⟩ :: kept ∧
        (c.apply (.put 2 ⟨"x", 3⟩)).events = gone.map Item.eviction ∧
        (gone.Pairwise fun a b => a.stamp < b.stamp) ∧
        (c.apply (.put 2 ⟨"x", 3⟩)).events.map (·.logLine c.name) =
          gone.map (Item.evictionLine c.name)) ∧
      (c.apply (.put 2 ⟨"x", 3⟩)).events = [.evicted 1 0, .evicted 2 2] ∧
      (∃ gone : List (Item Nat Artifact), c.size = 1 + gone.length ∧
        (c.apply (.setLimit 2)).events =
          gone.map Item.eviction ++ [.limitLowered 4 2 gone.length]) ∧
      (c.apply (.setLimit 2)).events = [.evicted 1 0, .evicted 2 1, .limitLowered 4 2 2] ∧
      (c.apply (.setLimit 4)).events = [] ∧
      (c.apply .clear).events = [.flushing 3] ∧
      (c.apply .clear).events.map (·.logLine c.name) = [⟨.debug, "demo: flushing 3 entries"⟩] ∧
      (c.run ops).after.counters.evictions = (c.run ops).events.countP Event.isEviction ∧
      (c.run ops).events =
        [.rejected 5 4, .evicted 1 0, .evicted 2 2, .evicted 3 3, .limitLowered 4 2 1] := by
  intro source c ops
  have hempty : (empty "demo" 5 : Cache Nat Artifact).Reachable := .empty "demo" 5
  have hrecipe := hempty.withUnused 4
  have hc : c.Reachable :=
    (((hrecipe.apply (.put 1 ⟨"a", 1⟩)).apply (.put 2 ⟨"b", 2⟩)).apply (.put 3 ⟨"c", 2⟩)).copy
  have hlimit : c.limit = 4 := by cbv
  have hname : c.name = "demo" := by cbv
  have hothers : Reference.others 2 (c.chain.entries.map Entry.item) =
      [⟨3, ⟨"c", 2⟩, 2, 2⟩, ⟨1, ⟨"a", 1⟩, 1, 0⟩] := by cbv
  have hclock : c.chain.clock = 3 := by cbv
  have hcounters : c.counters.evictions = 0 := by cbv
  have hsound := hc.ready.sound
  have hbefore : c.size = 3 := hsound.size.trans (by cbv)
  have hleft : (c.apply (.setLimit 2)).after.size = 1 :=
    (hc.apply (.setLimit 2)).ready.sound.size.trans (by cbv)
  obtain ⟨hput, hset, ⟨hclear, hcleared⟩, hrun⟩ := hc.events_tell_evictions
  obtain ⟨-, hrefused, hline⟩ := (hput 9 ⟨"y", 5⟩).1 (by rw [hlimit]; decide)
  have hstored := (hput 2 ⟨"x", 3⟩).2 (by rw [hlimit]; decide)
  obtain ⟨gone, -, hsize, htold, -, -⟩ := (hset 2).1 (by rw [hlimit]; decide)
  obtain ⟨-, hnothing, -⟩ := (hset 4).2 (by rw [hlimit])
  rw [hothers, hclock] at hstored
  rw [hleft] at hsize
  rw [hlimit] at hrefused hline htold
  rw [hbefore] at hclear hcleared
  have hgrown := (hrun ops).1
  rw [hcounters, Nat.zero_add] at hgrown
  have hlowered : (c.apply (.setLimit 2)).events =
      [.evicted 1 0, .evicted 2 1, .limitLowered 4 2 2] :=
    (hsound.setLimit 2).events.trans (by cbv)
  have hlog : (c.run ops).events =
      [.rejected 5 4, .evicted 1 0, .evicted 2 2, .evicted 3 3, .limitLowered 4 2 1] := by
    rw [run_eq_onTable, events_onTable, (hsound.run ops).events]
    cbv
  refine ⟨hlimit, by cbv, hrefused, hline.trans ?_, hstored, by cbv, ⟨gone, hsize, htold⟩, hlowered,
    hnothing, hclear, hcleared.trans ?_, hgrown, hlog⟩
  · rw [hname]
    decide
  · rw [hname]
    decide

end Cache

end BudgetCache
