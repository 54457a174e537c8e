import BudgetCache.Proofs.BudgetSafety
import Mathlib.Data.List.Forall2

/-!
# A larger cache holds more

Two caches are driven by the same steps, and the limit of the first is never above that of the
second. Then the first holds the newest part of what the second holds, in the same order, and finds
no more keys. This is what makes it worth while to raise a limit: no step that the smaller cache
answers from its store is lost to the larger one. It takes that a value depends on its key only and
that no value is refused.
-/

namespace BudgetCache

namespace Reference

variable {κ ν : Type} [BEq κ]

/-! ## Lists of which one continues the other -/

/-- Equal up to the stamp and to which of several equal keys is stored. -/
structure Alike (a b : Item κ ν) : Prop where
  key : (a.key == b.key) = true
  value : a.value = b.value
  footprint : a.footprint = b.footprint

/-- The second list begins with items alike to those of the first. -/
inductive Within : List (Item κ ν) → List (Item κ ν) → Prop
  | nil (items : List (Item κ ν)) : Within [] items
  | cons {a b : Item κ ν} {xs ys : List (Item κ ν)} (hab : Alike a b) (h : Within xs ys) :
    Within (a :: xs) (b :: ys)

/-- The beginning of the second list, item by item. -/
theorem Within.exists_append {xs ys : List (Item κ ν)} (h : Within xs ys) :
    ∃ kept rest, ys = kept ++ rest ∧ List.Forall₂ Alike xs kept := by
  induction h with
  | nil items => exact ⟨[], items, rfl, List.Forall₂.nil⟩
  | cons hab _ ih =>
    obtain ⟨kept, rest, rfl, hkept⟩ := ih
    exact ⟨_ :: kept, rest, rfl, List.Forall₂.cons hab hkept⟩

theorem Within.fitting {xs ys : List (Item κ ν)} (h : Within xs ys) {room room' : Int}
    (hle : room ≤ room') : Within (fitting room xs) (fitting room' ys) := by
  induction h generalizing room room' with
  | nil items => exact .nil _
  | @cons a b xs ys hab _ ih =>
    unfold Reference.fitting
    by_cases hfits : a.footprint ≤ room
    · rw [if_pos hfits, if_pos (by rw [← hab.footprint]; omega)]
      exact .cons hab (ih (by rw [← hab.footprint]; omega))
    · rw [if_neg hfits]
      exact .nil _

theorem Within.fitting_left {xs ys : List (Item κ ν)} (h : Within xs ys) (room : Int) :
    Within (Reference.fitting room xs) ys := by
  induction h generalizing room with
  | nil items => exact .nil _
  | @cons a b xs ys hab _ ih =>
    unfold Reference.fitting
    split
    · exact .cons hab (ih _)
    · exact .nil _

section Lawful

variable [EquivBEq κ]

theorem Alike.beq_eq {a b : Item κ ν} (h : Alike a b) (key : κ) :
    (a.key == key) = (b.key == key) :=
  BEq.congr_left h.key

theorem Within.others {xs ys : List (Item κ ν)} (h : Within xs ys) (key : κ) :
    Within (others key xs) (others key ys) := by
  induction h with
  | nil items => exact .nil _
  | @cons a b xs ys hab _ ih =>
    cases hkey : b.key == key with
    | true => simpa [Reference.others, hab.beq_eq, hkey] using ih
    | false => simpa [Reference.others, hab.beq_eq, hkey] using Within.cons hab ih

theorem Within.find? {xs ys : List (Item κ ν)} (h : Within xs ys) {key : κ} {a : Item κ ν}
    (ha : xs.find? (·.key == key) = some a) :
    ∃ b, ys.find? (·.key == key) = some b ∧ Alike a b := by
  induction h with
  | nil items => simp at ha
  | @cons x y xs ys hxy _ ih =>
    cases hkey : y.key == key with
    | true =>
      have hx : x = a := by simpa [hxy.beq_eq, hkey] using ha
      exact ⟨y, by simp [hkey], hx ▸ hxy⟩
    | false =>
      obtain ⟨b, hb, hab⟩ := ih (by simpa [hxy.beq_eq, hkey] using ha)
      exact ⟨b, by simpa [hkey] using hb, hab⟩

end Lawful

/-! ## Driving two references -/

/-- Looks up a key and stores its value if it was not found. -/
def access [Footprint ν] (v : κ → ν) (r : Reference κ ν) (key : κ) : Reference κ ν :=
  match (r.get key).reply with
  | none => ((r.get key).after.put key (v key)).after
  | some _ => (r.get key).after

/-- The first reference holds the newest part of what the second holds, and has found no more. -/
structure Included (v : κ → ν) (small large : Reference κ ν) : Prop where
  items : Within small.items large.items
  valued : ∀ item ∈ large.items, item.value = v item.key
  limit : small.limit ≤ large.limit
  hits : small.counters.hits ≤ large.counters.hits

variable {v : κ → ν} {small large : Reference κ ν}

theorem Included.clear (h : Included v small large) :
    Included v small.clear.after large.clear.after :=
  ⟨.nil _, fun _ hitem => absurd hitem List.not_mem_nil, h.limit, h.hits⟩

variable [Footprint ν]

theorem access_of_absent {r : Reference κ ν} {key : κ} (h : r.find? key = none) :
    r.access v key = (put { r with counters := r.counters.miss } key (v key)).after := by
  simp only [access, get, h]

theorem access_of_present {r : Reference κ ν} {key : κ} {item : Item κ ν}
    (h : r.find? key = some item) :
    r.access v key = { (r.without key).pushFront item.key item.value item.footprint with
      counters := r.counters.hit } := by
  simp only [access, get, h]

/-- The limits may change in any way that keeps their order. -/
theorem Included.setLimit (h : Included v small large) (hsmall : small.WellFormed)
    (hlarge : large.WellFormed) (hwithin : small.WithinLimit) {limit limit' : Int}
    (hle : limit ≤ limit') :
    Included v (small.setLimit limit).after (large.setLimit limit').after := by
  obtain ⟨hitems, hhits⟩ := items_setLimit hsmall.footprint_nonneg limit
  obtain ⟨hitems', hhits'⟩ := items_setLimit hlarge.footprint_nonneg limit'
  refine ⟨?_, ?_, ?_, ?_⟩
  · rw [hitems, hitems']
    split
    · split
      · exact h.items.fitting hle
      · exact h.items.fitting_left limit
    · next hraised =>
      split
      · -- All of the smaller one fits into the new limit of the larger one.
        have hkept : fitting limit' small.items = small.items := by
          by_cases hneg : small.limit < 0
          · rw [hwithin.negative hneg]
            rfl
          · have htotal := hwithin.total
            refine fitting_of_le ?_ hsmall.footprint_nonneg
            show small.total ≤ limit'
            omega
        rw [← hkept]
        exact h.items.fitting (Int.le_refl limit')
      · exact h.items
  · intro item hitem
    rw [hitems'] at hitem
    split at hitem
    · exact h.valued item ((fitting_prefix_items _ _).subset hitem)
    · exact h.valued item hitem
  · rw [limit_setLimit, limit_setLimit]
    exact hle
  · rw [hhits, hhits']
    exact h.hits

variable [EquivBEq κ]

omit [Footprint ν] in
theorem Included.without (h : Included v small large) (key : κ) :
    Included v (small.without key) (large.without key) :=
  ⟨h.items.others key, fun item hitem => h.valued item (mem_others.1 hitem).1, h.limit, h.hits⟩

/-- A value that the smaller limit admits is stored in both, in front of what fits. -/
theorem Included.put (h : Included v small large) (hsmall : small.WellFormed)
    (hlarge : large.WellFormed) (hv : ∀ a b, (a == b) = true → v a = v b) {key : κ}
    (hfit : spaceOf (v key) ≤ small.limit) :
    Included v (small.put key (v key)).after (large.put key (v key)).after := by
  obtain ⟨a, ha, hput⟩ := hsmall.put_of_le key hfit
  obtain ⟨b, hb, hput'⟩ := hlarge.put_of_le key (Int.le_trans hfit h.limit)
  have hroom : small.limit - spaceOf (v key) ≤ large.limit - spaceOf (v key) :=
    Int.sub_le_sub_right h.limit _
  rw [hput, hput']
  refine ⟨.cons ⟨BEq.trans ha (BEq.symm hb), rfl, rfl⟩ ((h.items.others key).fitting hroom), ?_,
    h.limit, h.hits⟩
  intro item hitem
  rcases List.mem_cons.1 hitem with rfl | hmem
  · exact hv key b (BEq.symm hb)
  · exact h.valued item (mem_others.1 ((fitting_prefix_items _ _).subset hmem)).1

/-- Whether a key is found in both, only in the larger one or in neither, it ends in front of
both. -/
theorem Included.access (h : Included v small large) (hsmall : small.WellFormed)
    (hlarge : large.WellFormed) (hv : ∀ a b, (a == b) = true → v a = v b) {key : κ}
    (hfit : small.find? key = none → spaceOf (v key) ≤ small.limit) :
    Included v (small.access v key) (large.access v key) := by
  have hothers := h.items.others key
  have hvalued : ∀ {b : Item κ ν}, large.find? key = some b →
      ∀ item ∈ ({ b with stamp := large.clock } : Item κ ν) :: others key large.items,
        item.value = v item.key := by
    intro b hb item hitem
    rcases List.mem_cons.1 hitem with rfl | hmem
    · exact h.valued b (List.mem_of_find?_eq_some hb)
    · exact h.valued item (mem_others.1 hmem).1
  cases hfind : small.find? key with
  | some a =>
    obtain ⟨b, hfind', hab⟩ := h.items.find? hfind
    rw [access_of_present hfind, access_of_present hfind']
    exact ⟨.cons ⟨hab.key, hab.value, hab.footprint⟩ hothers, hvalued hfind', h.limit,
      Nat.succ_le_succ h.hits⟩
  | none =>
    cases hfind' : large.find? key with
    | none =>
      rw [access_of_absent hfind, access_of_absent hfind']
      have hmissed : Included v { small with counters := small.counters.miss }
          { large with counters := large.counters.miss } := ⟨h.items, h.valued, h.limit, h.hits⟩
      exact hmissed.put (hsmall.withCounters _) (hlarge.withCounters _) hv (hfit hfind)
    | some b =>
      -- The smaller one stores anew what the larger one has kept.
      obtain ⟨a, ha, hput⟩ := (hsmall.withCounters small.counters.miss).put_of_le key (hfit hfind)
      have hb : (b.key == key) = true := (exists_of_find? hfind').1
      have hmem : b ∈ large.items := List.mem_of_find?_eq_some hfind'
      have hvalue : v key = b.value := by rw [h.valued b hmem, hv b.key key hb]
      have hfootprint : spaceOf (v key) = b.footprint := by rw [hlarge.fair b hmem, hvalue]
      rw [access_of_absent hfind, access_of_present hfind', hput]
      exact ⟨.cons ⟨BEq.trans ha (BEq.symm hb), hvalue, hfootprint⟩ (hothers.fitting_left _),
        hvalued hfind', h.limit, Nat.le_succ_of_le h.hits⟩

end Reference

/-! ## Driving two caches -/

namespace Cache

variable {κ ν : Type} [BEq κ] [Hashable κ] [Footprint ν]

/-- Looks up a key and stores its value if it was not found. -/
def access (v : κ → ν) (c : Cache κ ν) (key : κ) : Cache κ ν :=
  let looked := c.apply (.get key)
  match looked.reply with
  | .found none => (looked.after.apply (.put key (v key))).after
  | _ => looked.after

/-- The pairs of caches that come about by driving two fresh caches with the same steps, the limit
of the first never being above that of the second. No value that is put is too large for the
first. -/
inductive Driven (v : κ → ν) : Cache κ ν → Cache κ ν → Prop
  /-- Making the two caches. -/
  | fresh (name name' : String) {limit limit' : Int} (hle : limit ≤ limit') :
    Driven v (empty name limit) (empty name' limit')
  /-- Looking up a key, and storing its value in each cache that misses it. -/
  | access {small large : Cache κ ν} (h : Driven v small large) (key : κ)
    (hfit : small.contains key = false → spaceOf (v key) ≤ small.limit) :
    Driven v (small.access v key) (large.access v key)
  /-- Storing the value of a key. -/
  | put {small large : Cache κ ν} (h : Driven v small large) (key : κ)
    (hfit : spaceOf (v key) ≤ small.limit) :
    Driven v (small.apply (.put key (v key))).after (large.apply (.put key (v key))).after
  /-- Looking at a key without touching it. -/
  | peek {small large : Cache κ ν} (h : Driven v small large) (key : κ) :
    Driven v (small.apply (.peek key)).after (large.apply (.peek key)).after
  /-- Removing a key. -/
  | remove {small large : Cache κ ν} (h : Driven v small large) (key : κ) :
    Driven v (small.apply (.remove key)).after (large.apply (.remove key)).after
  /-- Removing every key. -/
  | clear {small large : Cache κ ν} (h : Driven v small large) :
    Driven v (small.apply .clear).after (large.apply .clear).after
  /-- Changing both limits. -/
  | setLimit {small large : Cache κ ν} (h : Driven v small large) {limit limit' : Int}
    (hle : limit ≤ limit') :
    Driven v (small.apply (.setLimit limit)).after (large.apply (.setLimit limit')).after

/-- What a table shows stays within its limit, and its parts agree. -/
structure Settled (c : Cache κ ν) : Prop where
  sound : c.toTable.Sound
  within : c.view.WithinLimit

variable [EquivBEq κ] [LawfulHashable κ]

theorem settled_empty (name : String) (limit : Int) : (empty name limit : Cache κ ν).Settled :=
  ⟨Table.sound_empty limit, Reference.withinLimit_empty limit⟩

theorem Settled.apply {c : Cache κ ν} (h : c.Settled) (op : Operation κ ν) :
    (c.apply op).after.Settled ∧ (c.apply op).after.view = (c.view.apply op).after := by
  have hmatches := h.sound.apply op
  have hview : (c.apply op).after.view = (c.view.apply op).after := hmatches.view
  refine ⟨⟨hmatches.sound, ?_⟩, hview⟩
  rw [hview]
  exact h.within.apply h.sound.wellFormed op

theorem Settled.access {c : Cache κ ν} (h : c.Settled) (v : κ → ν) (key : κ) :
    (c.access v key).Settled ∧ (c.access v key).view = c.view.access v key := by
  obtain ⟨hkept, hview⟩ := h.apply (.get key)
  have hreply : (c.apply (.get key)).reply = .found (c.view.get key).reply :=
    (h.sound.apply (.get key)).reply
  unfold Cache.access Reference.access
  cases hfound : (c.view.get key).reply with
  | none =>
    rw [hfound] at hreply
    obtain ⟨hkept', hview'⟩ := hkept.apply (.put key (v key))
    rw [hview] at hview'
    simp only [hreply]
    exact ⟨hkept', hview'⟩
  | some value =>
    rw [hfound] at hreply
    simp only [hreply]
    exact ⟨hkept, hview⟩

/-- What every step of two driven caches preserves. -/
structure Paired (v : κ → ν) (small large : Cache κ ν) : Prop where
  settled : small.Settled
  settled_large : large.Settled
  included : Reference.Included v small.view large.view

theorem Paired.apply {v : κ → ν} {small large : Cache κ ν} (h : Paired v small large)
    {op op' : Operation κ ν}
    (hincluded : Reference.Included v (small.view.apply op).after (large.view.apply op').after) :
    Paired v (small.apply op).after (large.apply op').after := by
  obtain ⟨hsmall, hview⟩ := h.settled.apply op
  obtain ⟨hlarge, hview'⟩ := h.settled_large.apply op'
  refine ⟨hsmall, hlarge, ?_⟩
  rw [hview, hview']
  exact hincluded

theorem Paired.access {v : κ → ν} {small large : Cache κ ν} (h : Paired v small large)
    (hv : ∀ a b, (a == b) = true → v a = v b) {key : κ}
    (hfit : small.contains key = false → spaceOf (v key) ≤ small.limit) :
    Paired v (small.access v key) (large.access v key) := by
  obtain ⟨hsmall, hview⟩ := h.settled.access v key
  obtain ⟨hlarge, hview'⟩ := h.settled_large.access v key
  refine ⟨hsmall, hlarge, ?_⟩
  rw [hview, hview']
  have hwellFormed := h.settled.sound.wellFormed
  refine h.included.access hwellFormed h.settled_large.sound.wellFormed hv fun habsent => hfit ?_
  rw [h.settled.sound.contains, Reference.contains, habsent]
  rfl

theorem Driven.paired {v : κ → ν} (hv : ∀ a b, (a == b) = true → v a = v b)
    {small large : Cache κ ν} (h : Driven v small large) : Paired v small large := by
  induction h with
  | fresh name name' hle =>
    refine ⟨settled_empty name _, settled_empty name' _, ?_⟩
    exact ⟨.nil _, fun _ hitem => absurd hitem List.not_mem_nil, hle, Nat.le_refl 0⟩
  | access _ key hfit ih => exact ih.access hv hfit
  | put _ key hfit ih =>
    have hsmall := ih.settled.sound.wellFormed
    exact ih.apply (ih.included.put hsmall ih.settled_large.sound.wellFormed hv hfit)
  | peek _ _ ih => exact ih
  | remove _ key ih => exact ih.apply (ih.included.without key)
  | clear _ ih => exact ih.apply ih.included.clear
  | setLimit _ hle ih =>
    have hsmall := ih.settled.sound.wellFormed
    have hlarge := ih.settled_large.sound.wellFormed
    exact ih.apply (ih.included.setLimit hsmall hlarge ih.settled.within hle)

/-- Of two caches driven by the same steps, the larger one holds first what the smaller one holds,
in the same order and with the same values; so it holds every key of the smaller one, and it has
found no fewer keys. Which of several equal keys is stored may differ, since only the smaller cache
may have dropped an entry and created it anew. -/
theorem Driven.inclusion {v : κ → ν} (hv : ∀ a b, (a == b) = true → v a = v b)
    {small large : Cache κ ν} (h : Driven v small large) :
    (∃ kept rest, large.chain.entries = kept ++ rest ∧
        List.Forall₂ (fun a b => (a.key == b.key) = true ∧ a.value = b.value)
          small.chain.entries kept) ∧
      (∀ key, small.contains key = true → large.contains key = true) ∧
      small.counters.hits ≤ large.counters.hits := by
  obtain ⟨hsmall, hlarge, hincluded⟩ := h.paired hv
  refine ⟨?_, fun key hkey => ?_, hincluded.hits⟩
  · obtain ⟨kept, rest, hlist, hkept⟩ := hincluded.items.exists_append
    obtain ⟨entries, others, hentries, rfl, -⟩ := List.map_eq_append_iff.1 hlist
    refine ⟨entries, others, hentries, ?_⟩
    have halike := List.forall₂_map_right_iff.1 (List.forall₂_map_left_iff.1 hkept)
    exact halike.imp fun a b hab => ⟨hab.key, hab.value⟩
  · rw [hsmall.sound.contains, Reference.contains, Option.isSome_iff_exists] at hkey
    obtain ⟨a, ha⟩ := hkey
    obtain ⟨b, hb, -⟩ := hincluded.items.find? ha
    rw [hlarge.sound.contains, Reference.contains, Reference.find?, hb]
    rfl

/-- The larger cache still has the key that the smaller one has to store again. -/
theorem inclusion_one_two :
    let v : Nat → Nat := fun key => key + 10
    let small : Cache Nat Nat := (((empty "small" 1).access v 1).access v 2).access v 1
    let large : Cache Nat Nat := (((empty "large" 2).access v 1).access v 2).access v 1
    (∃ kept rest, large.chain.entries = kept ++ rest ∧
        List.Forall₂ (fun a b => (a.key == b.key) = true ∧ a.value = b.value)
          small.chain.entries kept) ∧
      (∀ key, small.contains key = true → large.contains key = true) ∧
      small.counters.hits ≤ large.counters.hits ∧ small.counters.hits = 0 ∧
      large.counters.hits = 1 := by
  intro v small large
  have hfresh : Driven v (empty "small" 1) (empty "large" 2) := .fresh "small" "large" (by decide)
  have hfirst : ((empty "small" 1).access v 1).limit = 1 := by
    simp only [v]
    cbv
  have hsecond : (((empty "small" 1).access v 1).access v 2).limit = 1 := by
    simp only [v]
    cbv
  have hdriven : Driven v small large :=
    ((hfresh.access 1 fun _ => by decide).access 2 fun _ => Int.le_of_eq hfirst.symm).access 1
      fun _ => Int.le_of_eq hsecond.symm
  obtain ⟨hentries, hcontains, hhits⟩ := hdriven.inclusion fun a b hab => by rw [eq_of_beq hab]
  refine ⟨hentries, hcontains, hhits, ?_, ?_⟩
  · simp only [small, v]
    cbv
  · simp only [large, v]
    cbv

end Cache

end BudgetCache
