import BudgetCache.Proofs.Recall
import Mathlib

/-!
# Caches of unit footprints

If every value takes up one unit, the limit counts entries, and what a cache holds can be told from
the touches alone: the keys touched last, as many of them as the limit allows. Whether a lookup is a
touch depends on what the cache holds at the time; the law fixes both at once, since it holds after
every step. Taking out the oldest key again and again gives these keys in the order of their last
touch.
-/

namespace BudgetCache

variable {κ ν : Type} [BEq κ]

/-! ## Touches -/

namespace Operation

/-- The key that the operation touches, given its reply. -/
def touchedKey? : Operation κ ν × Reply κ ν → Option κ
  | (.put key _, _) => some key
  | (.get key, .found (some _)) => some key
  | _ => none

/-- Whether the operation only looks, or stores a value of footprint one. -/
def OfUnits [Footprint ν] : Operation κ ν → Prop
  | .put _ value => spaceOf value = 1
  | .get _ | .peek _ | .storedKey _ | .contains _ => True
  | .remove _ | .erase _ | .clear | .setLimit _ => False

end Operation

/-- The keys of a list without repetitions, each where it occurs last. -/
def latest : List κ → List κ
  | [] => []
  | key :: later => if later.any (key == ·) then latest later else key :: latest later

theorem mem_of_mem_latest {keys : List κ} {key : κ} (h : key ∈ latest keys) : key ∈ keys := by
  induction keys with
  | nil => exact h
  | cons first later ih =>
    unfold latest at h
    split at h
    · exact List.mem_cons_of_mem first (ih h)
    · rcases List.mem_cons.1 h with rfl | hmem
      · exact List.mem_cons_self
      · exact List.mem_cons_of_mem first (ih hmem)

theorem latest_distinct (keys : List κ) :
    (latest keys).Pairwise fun a b => (a == b) = false := by
  induction keys with
  | nil => exact List.Pairwise.nil
  | cons first later ih =>
    unfold latest
    split
    · exact ih
    · next hnone =>
      refine List.pairwise_cons.2 ⟨?_, ih⟩
      intro key hkey
      by_contra hsame
      rw [Bool.not_eq_false] at hsame
      exact hnone (List.any_eq_true.2 ⟨key, mem_of_mem_latest hkey, hsame⟩)

/-- A key that occurs once more moves to the end. -/
theorem latest_concat (keys : List κ) (key : κ) :
    latest (keys ++ [key]) = (latest keys).filter (fun k => !(k == key)) ++ [key] := by
  induction keys with
  | nil => simp [latest]
  | cons first later ih =>
    by_cases hlater : later.any (first == ·) = true
    · simp [latest, hlater, ih]
    · by_cases hkey : (first == key) = true
      · simp [latest, hlater, hkey, ih]
      · simp [latest, hlater, hkey, ih]

theorem exists_beq_iff [EquivBEq κ] {keys keys' : List κ}
    (h : List.Forall₂ (fun a b => (a == b) = true) keys keys') (key : κ) :
    (∃ k ∈ keys, (k == key) = true) ↔ ∃ k ∈ keys', (k == key) = true := by
  induction h with
  | nil => rfl
  | cons hab _ ih => simp only [List.exists_mem_cons_iff, ih, BEq.congr_left hab]

/-- The last `count` of the keys, the one touched last in front. -/
def window (count : Nat) (touches : List κ) : List κ :=
  (latest touches).reverse.take count

/-- If at most one element is filtered out, it does not matter whether the elements are counted
before or after. -/
theorem take_filter_take {α : Type} {p : α → Bool} {xs : List α}
    (h : xs.Pairwise fun a b => p a = true ∨ p b = true) (n : Nat) :
    ((xs.take (n + 1)).filter p).take n = (xs.filter p).take n := by
  induction xs generalizing n with
  | nil => rfl
  | cons x xs ih =>
    obtain ⟨hx, hxs⟩ := List.pairwise_cons.1 h
    rw [List.take_succ_cons]
    by_cases hp : p x = true
    · rw [List.filter_cons_of_pos hp, List.filter_cons_of_pos hp]
      cases n with
      | zero => rfl
      | succ n => rw [List.take_succ_cons, List.take_succ_cons, ih hxs]
    · have hall : ∀ y ∈ xs, p y = true := fun y hy => (hx y hy).resolve_left hp
      have htake : ∀ y ∈ xs.take n, p y = true := fun y hy => hall y (List.mem_of_mem_take hy)
      rw [List.filter_cons_of_neg hp, List.filter_cons_of_neg hp, List.filter_eq_self.2 hall,
        List.filter_eq_self.2 htake, List.take_take, Nat.min_self]

/-- What a further touch makes of the last keys. -/
theorem window_concat [EquivBEq κ] (n : Nat) (touches : List κ) (key : κ) :
    window (n + 1) (touches ++ [key]) =
      key :: ((window (n + 1) touches).filter fun k => !(k == key)).take n := by
  have hdistinct : (latest touches).reverse.Pairwise fun a b =>
      (!(a == key)) = true ∨ (!(b == key)) = true := by
    refine List.pairwise_reverse.2 ((latest_distinct touches).imp ?_)
    intro a b hab
    rw [Bool.not_eq_true', Bool.not_eq_true']
    by_contra hboth
    rw [not_or, Bool.not_eq_false, Bool.not_eq_false] at hboth
    rw [BEq.trans hboth.2 (BEq.symm hboth.1)] at hab
    cases hab
  rw [window, latest_concat, List.reverse_concat, List.take_succ_cons, ← List.filter_reverse,
    window, take_filter_take hdistinct]

namespace Reference

/-! ## One step -/

/-- The items are those of the keys touched last, and each takes up one unit. -/
structure Windowed (limit : Int) (touches : List κ) (r : Reference κ ν) : Prop where
  units : ∀ item ∈ r.items, item.footprint = 1
  items : List.Forall₂ (fun item key => (item.key == key) = true) r.items
    (window limit.toNat touches)
  limit : r.limit = limit

omit [BEq κ] in
theorem fitting_units {room : Int} {items : List (Item κ ν)}
    (h : ∀ item ∈ items, item.footprint = 1) : fitting room items = items.take room.toNat := by
  induction items generalizing room with
  | nil => rw [List.take_nil]; rfl
  | cons item items ih =>
    have hitem := h item List.mem_cons_self
    unfold fitting
    by_cases hroom : item.footprint ≤ room
    · obtain ⟨n, hn⟩ : ∃ n, room.toNat = n + 1 := ⟨room.toNat - 1, by omega⟩
      have hrest : (room - item.footprint).toNat = n := by omega
      rw [if_pos hroom, ih fun other hother => h other (List.mem_cons_of_mem item hother), hrest,
        hn, List.take_succ_cons]
    · have hzero : room.toNat = 0 := by omega
      rw [if_neg hroom, hzero, List.take_zero]

theorem windowed_empty (limit : Int) : (empty limit : Reference κ ν).Windowed limit [] := by
  refine ⟨fun item hitem => (List.not_mem_nil hitem).elim, ?_, rfl⟩
  rw [window, latest, List.reverse_nil, List.take_nil]
  exact .nil

variable [EquivBEq κ] {limit : Int} {touches : List κ} {r : Reference κ ν}

theorem filter_others {items : List (Item κ ν)} {keys : List κ}
    (h : List.Forall₂ (fun item key => (item.key == key) = true) items keys) (key : κ) :
    List.Forall₂ (fun item key => (item.key == key) = true) (others key items)
      (keys.filter fun k => !(k == key)) := by
  refine List.rel_filter ?_ h
  intro item k hk
  show (!(item.key == key)) = true ↔ (!(k == key)) = true
  rw [BEq.congr_left hk]

/-- A touched item that stands in front of those of the other items for which there is room. -/
theorem Windowed.touch (h : r.Windowed limit touches) {r' : Reference κ ν} {key : κ}
    {front : Item κ ν} {n : Nat} (hcount : limit.toNat = n + 1) (hlimit : r'.limit = r.limit)
    (hkey : (front.key == key) = true) (hunit : front.footprint = 1)
    (hitems : r'.items = front :: (others key r.items).take n) :
    r'.Windowed limit (touches ++ [key]) := by
  constructor
  case units =>
    intro item hitem
    rw [hitems] at hitem
    rcases List.mem_cons.1 hitem with rfl | hmem
    · exact hunit
    · exact h.units item (mem_others.1 (List.mem_of_mem_take hmem)).1
  case items =>
    have hwindow := h.items
    rw [hcount] at hwindow
    rw [hitems, hcount, window_concat]
    exact .cons hkey (List.forall₂_take n (filter_others hwindow key))
  case limit => rw [hlimit, h.limit]

/-- A lookup that finds its key moves it to the front, and nothing has to go. -/
theorem Windowed.get (h : r.Windowed limit touches) (key : κ) :
    (r.get key).after.Windowed limit
      (touches ++ (Operation.touchedKey? (.get key, .found (r.get key).reply)).toList) := by
  cases hfind : r.find? key with
  | none =>
    rw [Reference.get, hfind]
    show Windowed limit (touches ++ []) { r with counters := r.counters.miss }
    rw [List.append_nil]
    exact ⟨h.units, h.items, h.limit⟩
  | some item =>
    have hmem : item ∈ r.items := List.mem_of_find?_eq_some hfind
    have hkey : (item.key == key) = true := (exists_of_find? hfind).1
    have hlength : (others key r.items).length < r.items.length := by
      refine List.length_filter_lt_length_iff_exists.2 ⟨item, hmem, ?_⟩
      simp [hkey]
    have hcount : r.items.length ≤ limit.toNat := by
      rw [h.items.length_eq]
      exact List.length_take_le _ _
    obtain ⟨n, hn⟩ : ∃ n, limit.toNat = n + 1 := ⟨limit.toNat - 1, by omega⟩
    have hall : (others key r.items).take n = others key r.items :=
      List.take_of_length_le (by omega)
    rw [Reference.get, hfind]
    have hitems : ((r.without key).pushFront item.key item.value item.footprint).items =
        { item with stamp := r.clock } :: (others key r.items).take n := by
      rw [hall]
      rfl
    refine h.touch hn rfl ?_ ?_ hitems
    · exact hkey
    · exact h.units item hmem

variable [Footprint ν]

/-- A value of footprint one is stored unless the limit allows no entry at all. -/
theorem Windowed.put (h : r.Windowed limit touches) (hr : r.WellFormed) (key : κ) {value : ν}
    (hunit : spaceOf value = 1) :
    (r.put key value).after.Windowed limit (touches ++ [key]) := by
  have hlimit := h.limit
  have hunits : ∀ item ∈ others key r.items, item.footprint = 1 := fun item hitem =>
    h.units item (mem_others.1 hitem).1
  by_cases hlarge : r.limit < spaceOf value
  · have hzero : limit.toNat = 0 := by omega
    have hitems := h.items
    rw [hzero, window, List.take_zero, List.forall₂_nil_right_iff] at hitems
    rw [hr.put_of_lt key hlarge]
    refine ⟨hunits, ?_, hlimit⟩
    show List.Forall₂ _ (others key r.items) _
    rw [hitems, hzero, window, List.take_zero]
    exact .nil
  · obtain ⟨n, hn⟩ : ∃ n, limit.toNat = n + 1 := ⟨limit.toNat - 1, by omega⟩
    have hroom : (r.limit - spaceOf value).toNat = n := by omega
    obtain ⟨stored, hstored, hput⟩ := hr.put_of_le key (Int.not_lt.1 hlarge)
    have hitems : (r.put key value).after.items =
        ⟨stored, value, spaceOf value, r.clock⟩ :: (others key r.items).take n := by
      rw [hput, ← hroom, ← fitting_units hunits]
      rfl
    refine h.touch hn ?_ hstored hunit hitems
    rw [hput]
    rfl

theorem Windowed.apply (h : r.Windowed limit touches) (hr : r.WellFormed) {op : Operation κ ν}
    (hop : op.OfUnits) :
    (r.apply op).after.Windowed limit
      (touches ++ (Operation.touchedKey? (op, (r.apply op).reply)).toList) := by
  have hunchanged : r.Windowed limit (touches ++ (none : Option κ).toList) := by
    rw [Option.toList_none, List.append_nil]
    exact h
  cases op with
  | put key value => exact h.put hr key hop
  | get key => exact h.get key
  | peek key => exact hunchanged
  | storedKey key => exact hunchanged
  | contains key => exact hunchanged
  | remove key => exact hop.elim
  | erase key => exact hop.elim
  | clear => exact hop.elim
  | setLimit limit => exact hop.elim

end Reference

/-! ## A whole history -/

namespace Table

variable [Hashable κ] [Footprint ν] [EquivBEq κ] [LawfulHashable κ]

theorem Sound.windowed_run {t : Table κ ν} (ht : t.Sound) {limit : Int} {touches : List κ}
    (h : t.view.Windowed limit touches) {ops : List (Operation κ ν)}
    (hops : ∀ op ∈ ops, op.OfUnits) :
    (t.run ops).after.view.Windowed limit
      (touches ++ (ops.zip (t.run ops).reply).filterMap Operation.touchedKey?) := by
  induction ops generalizing t touches with
  | nil => simpa [Table.run] using h
  | cons op ops ih =>
    have hmatches := ht.apply op
    have hstep := h.apply ht.wellFormed (hops op List.mem_cons_self)
    rw [← hmatches.view, ← hmatches.reply] at hstep
    have hrest := ih hmatches.sound hstep fun other hother =>
      hops other (List.mem_cons_of_mem op hother)
    rw [List.append_assoc] at hrest
    have hsteps : (Operation.touchedKey? (op, (t.apply op).reply)).toList ++
        (ops.zip ((t.apply op).after.run ops).reply).filterMap Operation.touchedKey? =
          ((op :: ops).zip (t.run (op :: ops)).reply).filterMap Operation.touchedKey? := by
      rw [Table.run, List.zip_cons_cons, List.filterMap_cons]
      cases Operation.touchedKey? (op, (t.apply op).reply) <;> rfl
    rw [← hsteps]
    exact hrest

end Table

namespace Cache

variable [Hashable κ] [Footprint ν]

/-- Asking for the oldest key and removing it, again and again, gives these keys; then there is no
oldest key any more. -/
inductive Drains : Cache κ ν → List κ → Prop
  | done {c : Cache κ ν} (h : c.oldestKey? = none) : Drains c []
  | next {c : Cache κ ν} {key : κ} {keys : List κ} (h : c.oldestKey? = some key)
    (hrest : Drains (c.apply (.remove key)).after keys) : Drains c (key :: keys)

variable [EquivBEq κ] [LawfulHashable κ]

/-- Draining a cache gives its keys from the oldest entry to the newest. -/
theorem drains_of_sound {c : Cache κ ν} (h : c.toTable.Sound) :
    Drains c (c.view.items.reverse.map (·.key)) := by
  induction hitems : c.view.items using List.reverseRecOn generalizing c with
  | nil =>
    refine .done ?_
    rw [h.showsAs.oldestKey, hitems]
    rfl
  | append_singleton items oldest ih =>
    have hdistinct := h.wellFormed.distinct
    have hremove := h.apply (.remove oldest.key)
    have hrest : (c.apply (.remove oldest.key)).after.view.items = items := by
      show (c.toTable.apply (.remove oldest.key)).after.view.items = items
      rw [hremove.view]
      show Reference.others oldest.key c.view.items = items
      rw [hitems] at hdistinct ⊢
      rw [hdistinct.others_middle BEq.rfl, List.append_nil]
    rw [List.reverse_concat, List.map_cons]
    refine .next ?_ (ih hremove.sound hrest)
    rw [h.showsAs.oldestKey, hitems, List.getLast?_concat, Option.map_some]

/-- At every point of a history in which every value has footprint one, a fresh cache holds the last
`limit` distinct keys of the touches, all of them if there are fewer and none if the limit is not
positive. Draining the cache gives these keys, each touched later than those before it. -/
theorem run_empty_window (name : String) (limit : Int) (ops : List (Operation κ ν))
    (hops : ∀ op ∈ ops, op.OfUnits) (n : Nat) :
    let past := ops.take n
    let c := ((empty name limit).run past).after
    let steps := past.zip ((empty name limit).run past).reply
    let lastKeys := (latest (steps.filterMap Operation.touchedKey?)).rtake limit.toNat
    (∀ key, c.contains key = true ↔ ∃ k ∈ lastKeys, (k == key) = true) ∧
      ∃ drained, c.Drains drained ∧
        List.Forall₂ (fun a b => (a == b) = true) drained lastKeys ∧
        drained.Pairwise fun a b => ∃ i j, i < j ∧ LastTouch steps a i ∧ LastTouch steps b j := by
  intro past c steps lastKeys
  have hview : (Table.empty limit : Table κ ν).view = Reference.empty limit :=
    (Table.agrees_empty limit).view_eq
  have hfresh := Table.sound_empty (κ := κ) (ν := ν) limit
  have hsound : c.toTable.Sound := by
    simp only [c, run_eq_onTable, toTable_onTable]
    exact (hfresh.run past).sound
  have hwindowed : c.view.Windowed limit (steps.filterMap Operation.touchedKey?) := by
    have hempty : (Table.empty limit : Table κ ν).view.Windowed limit [] := by
      rw [hview]
      exact Reference.windowed_empty limit
    simp only [c, steps, run_eq_onTable, reply_onTable, toTable_onTable]
    exact hfresh.windowed_run hempty fun op hop => hops op (List.mem_of_mem_take hop)
  have hrecalls : c.view.Recalls steps := by
    have hempty : (Table.empty limit : Table κ ν).view.Recalls [] := by
      rw [hview]
      exact Reference.recalls_empty limit
    simp only [c, steps, run_eq_onTable, reply_onTable, toTable_onTable]
    exact hfresh.recalls_run hempty past
  have hkeys : List.Forall₂ (fun a b => (a == b) = true) (c.view.items.reverse.map (·.key))
      lastKeys := by
    simp only [lastKeys, List.rtake_eq_reverse_take_reverse]
    exact List.forall₂_map_left_iff.2 (List.forall₂_reverse_iff.2 hwindowed.items)
  refine ⟨?_, _, drains_of_sound hsound, hkeys, ?_⟩
  · intro key
    rw [hsound.contains, Reference.contains, Reference.find?, List.find?_isSome,
      ← exists_beq_iff hkeys key]
    simp
  · rw [List.pairwise_map, List.pairwise_reverse]
    refine hrecalls.order.imp ?_
    rintro a b ⟨i, j, hlt, hi, hj⟩
    exact ⟨j, i, hlt, hj, hi⟩

/-- The last lookup misses a key that was touched before, so it is no touch. -/
theorem run_empty_window_two :
    let ops : List (Operation Nat String) := [.put 1 "a", .put 2 "b", .get 1, .put 3 "c", .get 2]
    let c := ((empty "demo" 2).run ops).after
    (∀ op ∈ ops, op.OfUnits) ∧
      (∀ key, c.contains key = true ↔ ∃ k ∈ [1, 3], (k == key) = true) ∧
      ∃ drained, c.Drains drained ∧
        List.Forall₂ (fun a b => (a == b) = true) drained [1, 3] := by
  intro ops c
  have hops : ∀ op ∈ ops, op.OfUnits := by
    simp only [ops, List.forall_mem_cons]
    exact ⟨rfl, rfl, trivial, rfl, trivial, by simp⟩
  obtain ⟨hcontains, drained, hdrains, hkeys, -⟩ := run_empty_window "demo" 2 ops hops 5
  have hlast : (latest ((ops.zip ((empty "demo" 2).run ops).reply).filterMap
      Operation.touchedKey?)).rtake 2 = [1, 3] := by cbv
  exact ⟨hops, fun key => hlast ▸ hcontains key, drained, hdrains, hlast ▸ hkeys⟩

end Cache

end BudgetCache
