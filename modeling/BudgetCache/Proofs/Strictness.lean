import BudgetCache.Proofs.CacheHistory
import BudgetCache.Proofs.EvictionLoops
import BudgetCache.Proofs.Reachable
import BudgetCache.Script.Artifact
import Mathlib

/-!
# Strict tables

Where an operation finds a slot stale, it goes on as if there had been nothing to do, and where a
loop of eviction runs out of entries, it stops. The strict operations are the same ones, except that
they give up there. On a sound table they never do: every indexed slot holds its entry, also after a
touch, between the turns of a loop and between dropping an entry and storing its key anew.
-/

namespace BudgetCache

namespace Table

variable {κ ν : Type} [BEq κ] [Hashable κ]

namespace Strict

/-- The entry of a key. Gives up if the key leads to a stale slot. -/
def find? (t : Table κ ν) (key : κ) : Option (Option (Entry κ ν)) :=
  match t.index[key]? with
  | none => some none
  | some slot => (t.chain.get? slot).map some

/-- The stored keys with their values. Gives up if any key leads to a stale slot. -/
def toList (t : Table κ ν) : Option (List (κ × ν)) := do
  let entries ← t.index.toList.mapM fun pair => t.chain.get? pair.2
  return entries.map fun entry => (entry.key, entry.value)

/-- Removes the entry in a slot. Gives up on a stale slot. -/
def discard (t : Table κ ν) (slot : Nat) : Option (Entry κ ν × Table κ ν) :=
  match t.chain.remove slot with
  | (none, _) => none
  | (some entry, chain) =>
    some (entry,
      { t with
        index := t.index.erase entry.key
        chain
        budget := t.budget.release entry.footprint })

/-- Drops the entry in a slot and counts that. Gives up on a stale slot. -/
def evict (t : Table κ ν) (slot : Nat) : Option (Table κ ν × List Event) := do
  let (entry, t) ← discard t slot
  return ({ t with counters := t.counters.eviction }, [.evicted entry.footprint entry.stamp])

/-- Drops entries, oldest first, until the budget satisfies `done`. Gives up on the check after
`fuel` others, and if no entry is left to drop, unless that `mayRunOut`. -/
def evictUntil (done : Budget → Bool) (mayRunOut : Table κ ν → Bool) :
    Nat → Table κ ν → Option (Table κ ν × List Event)
  | 0, _ => none
  | fuel + 1, t =>
    if done t.budget then some (t, [])
    else
      match t.chain.oldest with
      | none => if mayRunOut t then some (t, []) else none
      | some slot => do
        let (next, first) ← evict t slot
        let (last, rest) ← evictUntil done mayRunOut fuel next
        return (last, first ++ rest)

/-- Makes room for `footprint` more units, or refuses if they exceed the limit. Gives up if the
entries do not suffice. -/
def makeRoom? (t : Table κ ν) (footprint : Int) : Option (Option (Table κ ν × List Event)) :=
  if t.budget.fits footprint then some (some (t, []))
  else if t.budget.neverFits footprint then some none
  else (evictUntil (·.fits footprint) (fun _ => false) (t.chain.size + 1) t).map some

/-- Changes the limit. Only a negative limit may use up the entries, and then no key is left. -/
def setLimit (t : Table κ ν) (limit : Int) : Option (Outcome (Table κ ν) Unit) :=
  if limit < t.limit then do
    let (fitting, events) ← evictUntil (fun b => decide (b.used ≤ limit))
      (fun t => decide (limit < 0) && t.isEmpty) (t.chain.size + 1) t
    return {
      reply := ()
      after := { fitting with budget := { fitting.budget with limit } }
      events := events ++ [.limitLowered t.limit limit (t.size - fitting.size)] }
  else
    some { reply := (), after := { t with budget := { t.budget with limit } } }

/-- The value of a key, which is touched. Gives up if there is no value after a hit was counted. -/
def get (t : Table κ ν) (key : κ) : Option (Outcome (Table κ ν) (Option ν)) :=
  match t.index[key]? with
  | none => some { reply := none, after := { t with counters := t.counters.miss } }
  | some slot => do
    let chain := t.chain.touch slot
    let entry ← chain.get? slot
    return { reply := some entry.value, after := { t with chain, counters := t.counters.hit } }

/-- Touches the entry in a slot and gives it another value. Gives up on a stale slot. -/
def replaceAt (t : Table κ ν) (slot : Nat) (value : ν) (footprint : Int) : Option (Table κ ν) :=
  match (t.chain.touch slot).replace slot value footprint with
  | (none, _) => none
  | (some old, chain) => some { t with chain, budget := t.budget.exchange old footprint }

/-- Stores a value under an absent key, making room for it, or refuses it. -/
def insertAbsent (t : Table κ ν) (key : κ) (value : ν) (footprint : Int) :
    Option (Table κ ν × List Event) := do
  match ← makeRoom? t footprint with
  | some (roomy, events) => return (roomy.push key value footprint, events)
  | none => return ({ t with counters := t.counters.rejection }, [.rejected footprint t.limit])

/-- Stores a value under a key. Gives up if the key leads to a stale slot. -/
def put [Footprint ν] (t : Table κ ν) (key : κ) (value : ν) : Option (Outcome (Table κ ν) ν) := do
  let footprint := spaceOf value
  match t.index[key]? with
  | some slot =>
    let entry ← t.chain.get? slot
    if t.budget.fitsInPlaceOf entry.footprint footprint then
      let after ← replaceAt t slot value footprint
      return { reply := value, after }
    else
      let (_, rest) ← discard t slot
      let (after, events) ← insertAbsent rest key value footprint
      return { reply := value, after, events }
  | none =>
    let (after, events) ← insertAbsent t key value footprint
    return { reply := value, after, events }

/-- Removes a key and tells the value it had. Gives up if the key leads to a stale slot. -/
def remove (t : Table κ ν) (key : κ) : Option (Outcome (Table κ ν) (Option ν)) :=
  match t.index[key]? with
  | none => some { reply := none, after := t }
  | some slot => do
    let (entry, after) ← discard t slot
    return { reply := some entry.value, after }

/-- Carries out an operation strictly. -/
def apply [Footprint ν] (t : Table κ ν) :
    Operation κ ν → Option (Outcome (Table κ ν) (Reply κ ν))
  | .put key value => (put t key value).map (·.map .echo)
  | .get key => (get t key).map (·.map .found)
  | .peek key =>
    (find? t key).map fun entry => { reply := .found (entry.map (·.value)), after := t }
  | .storedKey key =>
    (find? t key).map fun entry => { reply := .key ((entry.map (·.key)).getD key), after := t }
  | .contains key => some { reply := .answer (t.contains key), after := t }
  | .remove key => (remove t key).map (·.map .found)
  | .erase key => (remove t key).map (·.map fun _ => .done)
  | .clear => some (t.clear.map fun _ => .done)
  | .setLimit limit => (setLimit t limit).map (·.map fun _ => .done)

-- Here the index leads to a slot that was never used.
example : (apply { (empty 3 : Table Nat Nat) with index := {(1, 0)} } (.get 1)).isNone := by cbv

end Strict

/-! ## Live slots -/

theorem mapM_eq_filterMap {α β : Type} {f : α → Option β} {xs : List α}
    (h : ∀ x ∈ xs, (f x).isSome = true) : xs.mapM f = some (xs.filterMap f) := by
  induction xs with
  | nil => rfl
  | cons x xs ih =>
    obtain ⟨hx, hxs⟩ := List.forall_mem_cons.1 h
    obtain ⟨y, hy⟩ := Option.isSome_iff_exists.1 hx
    simp [hy, ih hxs]

theorem strict_discard {t : Table κ ν} {slot : Nat} {entry : Entry κ ν}
    (h : (t.discard slot).1 = some entry) :
    Strict.discard t slot = some (entry, (t.discard slot).2) := by
  rcases hremove : t.chain.remove slot with ⟨_ | found, chain⟩
  · simp [Table.discard, hremove] at h
  · have hentry : found = entry := by simpa [Table.discard, hremove] using h
    simp [Strict.discard, Table.discard, hremove, hentry]

theorem strict_replaceAt {t : Table κ ν} {slot : Nat} {entry : Entry κ ν}
    (h : (t.chain.touch slot).get? slot = some entry) (value : ν) (footprint : Int) :
    Strict.replaceAt t slot value footprint = some (t.replaceAt slot value footprint) := by
  simp [Strict.replaceAt, Table.replaceAt, Chain.replace, h]

/-- A key leads nowhere or to the slot of a cell. -/
theorem Agrees.index_cases {t : Table κ ν} {cells : List (Nat × Item κ ν)} (h : t.Agrees cells)
    (key : κ) : t.index[key]? = none ∨
      ∃ xs slot item ys, cells = xs ++ (slot, item) :: ys ∧ t.index[key]? = some slot := by
  cases hcell : cell? cells key with
  | none => exact .inl (h.absent hcell).1
  | some cell =>
    obtain ⟨-, xs, ys, hcells⟩ := exists_of_cell? hcell
    exact .inr ⟨xs, cell.1, cell.2, ys, hcells, (h.present hcell).1⟩

theorem Agrees.strict_find? {t : Table κ ν} {cells : List (Nat × Item κ ν)} (h : t.Agrees cells)
    (key : κ) : Strict.find? t key = some (t.find? key) := by
  rcases h.index_cases key with hindex | ⟨xs, slot, item, ys, rfl, hindex⟩
  · simp [Strict.find?, Table.find?, hindex]
  · obtain ⟨entry, hentry, -⟩ := h.chain.get?_middle
    simp [Strict.find?, Table.find?, hindex, hentry]

/-- A touched cell is where it was. -/
theorem Agrees.get?_touch {t : Table κ ν} {xs ys : List (Nat × Item κ ν)} {slot : Nat}
    {item : Item κ ν} (h : t.Agrees (xs ++ (slot, item) :: ys)) :
    ∃ entry, (t.chain.touch slot).get? slot = some entry := by
  obtain ⟨entry, hentry, -⟩ :=
    Option.map_eq_some_iff.1 (h.chain.touch.item _ List.mem_cons_self)
  exact ⟨entry, hentry⟩

theorem Agrees.strict_get {t : Table κ ν} {cells : List (Nat × Item κ ν)} (h : t.Agrees cells)
    (key : κ) : Strict.get t key = some (t.get key) := by
  rcases h.index_cases key with hindex | ⟨xs, slot, item, ys, rfl, hindex⟩
  · simp [Strict.get, Table.get, hindex]
  · obtain ⟨entry, hentry⟩ := h.get?_touch
    simp [Strict.get, Table.get, hindex, hentry]

variable [EquivBEq κ] [LawfulHashable κ]

/-- Going through the index skips no slot. -/
theorem Agrees.strict_toList {t : Table κ ν} {cells : List (Nat × Item κ ν)} (h : t.Agrees cells) :
    Strict.toList t = some t.toList := by
  have hlive : ∀ pair ∈ t.index.toList, (t.chain.get? pair.2).isSome = true := by
    intro pair hpair
    obtain ⟨cell, hcell, rfl⟩ := List.mem_map.1 (h.index_toList.mem_iff.1 hpair)
    obtain ⟨entry, hentry, -⟩ := Option.map_eq_some_iff.1 (h.chain.item cell hcell)
    exact Option.isSome_iff_exists.2 ⟨entry, hentry⟩
  rw [Strict.toList, mapM_eq_filterMap hlive]
  rfl

/-! ## Loops -/

/-- The oldest slot holds its entry. -/
theorem Agrees.strict_evict {t : Table κ ν} {cells : List (Nat × Item κ ν)} {slot : Nat}
    (h : t.Agrees cells) (holdest : t.chain.oldest = some slot) :
    Strict.evict t slot = some (t.evict slot) := by
  obtain ⟨rest, item, rfl⟩ := h.exists_of_oldest holdest
  obtain ⟨entry, hentry, -⟩ := h.discard
  have hdiscard : t.discard slot = (some entry, (t.discard slot).2) := Prod.ext hentry rfl
  rw [Strict.evict, strict_discard hentry, Table.evict, hdiscard]
  rfl

/-- A loop that comes to an end gets there in both forms. -/
theorem Agrees.strict_evictUntil {t t' : Table κ ν} {cells : List (Nat × Item κ ν)}
    (h : t.Agrees cells) {done : Budget → Bool} {mayRunOut : Table κ ν → Bool} {n fuel : Nat}
    (hturns : Turns done n t t') (hends : Ends done t')
    (hout : done t'.budget = false → mayRunOut t' = true) (hfuel : n ≤ fuel) :
    Strict.evictUntil done mayRunOut (fuel + 1) t = some (Table.evictUntil done fuel t) := by
  induction hturns generalizing cells fuel with
  | refl t =>
    -- the unit of fuel that is left pays for the check that ends the loop
    rw [evictUntil_of_ends hends, Strict.evictUntil]
    split
    · rfl
    · next hdone =>
      have hnone := hends.resolve_left hdone
      have hmay := hout (Bool.eq_false_iff.2 hdone)
      simp [hnone, hmay]
  | turn hturn _ ih =>
    obtain ⟨rest, _, _, -, hrest, -⟩ := h.turn hturn
    obtain ⟨hdone, holdest⟩ := hturn
    obtain ⟨fuel, rfl⟩ : ∃ k, fuel = k + 1 := ⟨fuel - 1, by omega⟩
    have hloop := ih hrest hends hout (Nat.le_of_succ_le_succ hfuel)
    rw [Strict.evictUntil, Table.evictUntil, hdone, holdest]
    simp [h.strict_evict holdest, hloop]

variable [Footprint ν]

theorem Sound.strict_evictUntil {t : Table κ ν} (h : t.Sound) {done : Budget → Bool}
    {mayRunOut : Table κ ν → Bool}
    (hout : ∀ n t', Turns done n t t' → done t'.budget = false → t'.chain.oldest = none →
      mayRunOut t' = true) :
    Strict.evictUntil done mayRunOut (t.chain.size + 1) t =
      some (Table.evictUntil done t.chain.size t) := by
  obtain ⟨n, t', hturns, hends, -⟩ := h.loopsEnd.ends done
  have hfuel := h.turns_le hturns
  obtain ⟨cells, hagrees, -⟩ := h
  refine hagrees.strict_evictUntil hturns hends (fun hdone => ?_) hfuel
  exact hout n t' hturns hdone (hends.resolve_left (Bool.eq_false_iff.1 hdone))

theorem Sound.strict_makeRoom? {t : Table κ ν} (h : t.Sound) (footprint : Int) :
    Strict.makeRoom? t footprint = some (t.makeRoom? footprint) := by
  unfold Strict.makeRoom? Table.makeRoom?
  split
  · rfl
  · split
    · rfl
    · next hnever =>
      have hle : footprint ≤ t.budget.limit := by simpa [Budget.neverFits] using hnever
      rw [h.strict_evictUntil fun n t' hturns hfits hnone => ?_]
      · rfl
      · rw [h.fits_of_turns hle hturns hnone] at hfits
        cases hfits

theorem Sound.strict_setLimit {t : Table κ ν} (h : t.Sound) (limit : Int) :
    Strict.setLimit t limit = some (t.setLimit limit) := by
  unfold Strict.setLimit Table.setLimit
  split
  · rw [h.strict_evictUntil fun n t' hturns hover hnone => ?_]
    · rfl
    · have hlt : limit < t'.budget.used := by simpa using hover
      obtain ⟨hneg, hempty⟩ := h.neg_of_turns hturns hlt hnone
      simp [hneg, hempty]
  · rfl

/-! ## Operations -/

theorem Sound.strict_insertAbsent {t : Table κ ν} (h : t.Sound) (key : κ) (value : ν)
    (footprint : Int) :
    Strict.insertAbsent t key value footprint = some (t.insertAbsent key value footprint) := by
  unfold Strict.insertAbsent Table.insertAbsent
  rw [h.strict_makeRoom?]
  cases t.makeRoom? footprint <;> rfl

/-- Between dropping an entry and storing its key anew the table is sound. -/
theorem Sound.discard {t : Table κ ν} (h : t.Sound) {key : κ} {slot : Nat}
    (hslot : t.index[key]? = some slot) :
    (∃ entry, (t.discard slot).1 = some entry) ∧ (t.discard slot).2.Sound := by
  obtain ⟨cells, hagrees, hfair⟩ := h
  rcases hagrees.index_cases key with hindex | ⟨xs, slot', item, ys, rfl, hindex⟩
  · rw [hindex] at hslot
    cases hslot
  · obtain rfl : slot' = slot := Option.some.inj (hindex.symm.trans hslot)
    obtain ⟨entry, hentry, -, hrest, -⟩ := hagrees.discard
    exact ⟨⟨entry, hentry⟩, _, hrest, hfair.middle.2⟩

theorem Sound.strict_put {t : Table κ ν} (h : t.Sound) (key : κ) (value : ν) :
    Strict.put t key value = some (t.put key value) := by
  obtain ⟨cells, hagrees, -⟩ := id h
  rcases hagrees.index_cases key with hindex | ⟨xs, slot, item, ys, rfl, hindex⟩
  · simp [Strict.put, Table.put, hindex, h.strict_insertAbsent]
  · obtain ⟨entry, hentry, -⟩ := hagrees.chain.get?_middle
    by_cases hfits : t.budget.fitsInPlaceOf entry.footprint (spaceOf value) = true
    · obtain ⟨touched, htouched⟩ := hagrees.get?_touch
      simp [Strict.put, Table.put, hindex, hentry, hfits, strict_replaceAt htouched]
    · obtain ⟨⟨found, hfound⟩, hbetween⟩ := h.discard hindex
      simp [Strict.put, Table.put, hindex, hentry, hfits, strict_discard hfound,
        hbetween.strict_insertAbsent]

theorem Sound.strict_remove {t : Table κ ν} (h : t.Sound) (key : κ) :
    Strict.remove t key = some (t.remove key) := by
  cases hindex : t.index[key]? with
  | none => simp [Strict.remove, Table.remove, hindex]
  | some slot =>
    obtain ⟨⟨entry, hentry⟩, -⟩ := h.discard hindex
    simp [Strict.remove, Table.remove, hindex, strict_discard hentry, hentry]

/-- A strict operation on a sound table does not give up, and comes to the same. -/
theorem Sound.strict_apply {t : Table κ ν} (h : t.Sound) (op : Operation κ ν) :
    Strict.apply t op = some (t.apply op) := by
  obtain ⟨cells, hagrees, -⟩ := id h
  cases op with
  | put key value => simp [Strict.apply, Table.apply, h.strict_put]
  | get key => simp [Strict.apply, Table.apply, hagrees.strict_get]
  | peek key => simp [Strict.apply, Table.apply, hagrees.strict_find?, Table.peek]
  | storedKey key => simp [Strict.apply, Table.apply, hagrees.strict_find?, Table.storedKey]
  | contains key => rfl
  | remove key => simp [Strict.apply, Table.apply, h.strict_remove]
  | erase key => simp [Strict.apply, Table.apply, h.strict_remove, Table.erase, Outcome.map]
  | clear => rfl
  | setLimit limit => simp [Strict.apply, Table.apply, h.strict_setLimit]

end Table

namespace Cache

variable {κ ν : Type} [BEq κ] [Hashable κ] [EquivBEq κ] [LawfulHashable κ] [Footprint ν]

/-- In a cache that any use can lead to, also one over its limit, the loops of eviction end, each
turn taking one live entry and its key. Room is refused exactly if the limit has none, and otherwise
made before the entries run out; only a negative limit uses up all of them. The loops are as good
after an entry was dropped to store its key anew. No operation comes upon a stale slot or goes on
without an entry that it needs. -/
theorem Reachable.loops_end_strictly {c : Cache κ ν} (h : c.Reachable) :
    c.toTable.LoopsEnd ∧ (∀ footprint, c.toTable.MakesRoom footprint) ∧
      (∀ limit, c.toTable.Honours limit) ∧
      (∀ (key : κ) slot, c.index[key]? = some slot →
        (c.discard slot).2.LoopsEnd ∧ ∀ footprint, (c.discard slot).2.MakesRoom footprint) ∧
      Table.Strict.toList c.toTable = some c.toList ∧
      ∀ op, Table.Strict.apply c.toTable op = some (c.toTable.apply op) := by
  have hsound := h.ready.sound
  refine ⟨hsound.loopsEnd, hsound.makesRoom, hsound.honours, fun key slot hslot => ?_, ?_,
    hsound.strict_apply⟩
  · obtain ⟨-, hbetween⟩ := hsound.discard hslot
    exact ⟨hbetween.loopsEnd, hbetween.makesRoom⟩
  · obtain ⟨cells, hagrees, -⟩ := hsound
    exact hagrees.strict_toList

/-- A copy that is over its limit refuses three units and makes room for two. A negative limit
leaves no key. -/
theorem loops_end_strictly_copy :
    let source : Cache Nat Artifact :=
      (((empty "demo" 3).withRecipe fun _ => Fresh.unused 2).run
        [.put 1 ⟨"a", 1⟩, .put 2 ⟨"b", 1⟩, .put 3 ⟨"c", 1⟩]).after
    let c := source.copy
    c.limit = 2 ∧ c.used = 3 ∧ c.makeRoom? 3 = none ∧
      (∃ roomy events, c.makeRoom? 2 = some (roomy, events) ∧ roomy.budget.fits 2 = true ∧
        ∃ n, Table.Turns (·.fits 2) n c.toTable roomy) ∧
      (∃ n t', Table.Turns (fun b => decide (b.used ≤ -1)) n c.toTable t' ∧ n + t'.size = 3) ∧
      Table.Strict.apply c.toTable (.put 2 ⟨"y", 2⟩) =
        some (c.toTable.apply (.put 2 ⟨"y", 2⟩)) := by
  intro source c
  have hempty : (empty "demo" 3 : Cache Nat Artifact).Reachable := .empty "demo" 3
  have hrecipe := hempty.withRecipe (fun _ => empty "fresh" 2) (fun _ => .empty "fresh" 2)
    (fun _ => by cbv) (fun _ => Fresh.unused 2) fun _ => rfl
  have hc : c.Reachable :=
    (((hrecipe.apply (.put 1 ⟨"a", 1⟩)).apply (.put 2 ⟨"b", 1⟩)).apply (.put 3 ⟨"c", 1⟩)).copy
  have hlimit : c.limit = 2 := by cbv
  have hsize : c.size = 3 := by rw [hc.ready.sound.size]; cbv
  obtain ⟨hends, hroom, hlower, -, -, hstrict⟩ := hc.loops_end_strictly
  obtain ⟨n, t', hturns, -⟩ := (hlower (-1)).lowered (by rw [hlimit]; decide)
  refine ⟨hlimit, by cbv, (hroom 3).refuses.2 (by rw [hlimit]; decide), ?_,
    ⟨n, t', hturns, (hends.size _ n t' hturns).trans hsize⟩, hstrict _⟩
  cases hmade : c.makeRoom? 2 with
  | none =>
    have hlarge := (hroom 2).refuses.1 hmade
    rw [hlimit] at hlarge
    cases hlarge
  | some made => exact ⟨made.1, made.2, rfl, (hroom 2).enough made.1 made.2 hmade⟩

end Cache

end BudgetCache
