import BudgetCache.Proofs.CacheHistory
import BudgetCache.Proofs.Reachable
import BudgetCache.Proofs.Steps

/-!
# A copy behaves as its source

No operation looks at a stamp, at the clock or at a counter to decide what it does. So two caches
that hold the same keys, values and footprints in the same order under the same limit reply alike
for good, although their slots, stamps and counters differ. A copy is such a twin of its source if
it gets the limit of its source.
-/

namespace BudgetCache

namespace Item

variable {κ ν : Type}

/-- The item without its stamp. -/
def content (item : Item κ ν) : κ × ν × Int :=
  (item.key, item.value, item.footprint)

theorem content_inj {a b : Item κ ν} (h : a.content = b.content) :
    a.key = b.key ∧ a.value = b.value ∧ a.footprint = b.footprint := by
  simpa [content] using h

end Item

namespace Entry

variable {κ ν : Type}

/-- The entry without its stamp and its place. -/
def content (entry : Entry κ ν) : κ × ν × Int :=
  (entry.key, entry.value, entry.footprint)

end Entry

namespace Counters

/-- Counting on by what was counted elsewhere. -/
instance : Add Counters where
  add c d := ⟨c.hits + d.hits, c.misses + d.misses, c.evictions + d.evictions,
    c.rejections + d.rejections⟩

theorem add_eq (c d : Counters) : c + d = ⟨c.hits + d.hits, c.misses + d.misses,
    c.evictions + d.evictions, c.rejections + d.rejections⟩ :=
  rfl

theorem add_assoc (c d e : Counters) : c + d + e = c + (d + e) := by
  simp [add_eq, Nat.add_assoc]

end Counters

namespace Reference

variable {κ ν : Type}

/-! ## Items without their stamps -/

theorem spaceIn_congr {xs ys : List (Item κ ν)} (h : xs.map Item.content = ys.map Item.content) :
    spaceIn xs = spaceIn ys := by
  induction xs generalizing ys with
  | nil => rw [List.map_eq_nil_iff.1 h.symm]
  | cons x xs ih =>
    obtain ⟨y, ys, rfl, hxy, hrest⟩ := List.map_eq_cons_iff.1 h.symm
    rw [spaceIn_cons, spaceIn_cons, (Item.content_inj hxy).2.2, ih hrest.symm]

theorem fitting_congr {xs ys : List (Item κ ν)} (h : xs.map Item.content = ys.map Item.content)
    (room : Int) :
    (fitting room xs).map Item.content = (fitting room ys).map Item.content := by
  induction xs generalizing ys room with
  | nil => rw [List.map_eq_nil_iff.1 h.symm]
  | cons x xs ih =>
    obtain ⟨y, ys, rfl, hxy, hrest⟩ := List.map_eq_cons_iff.1 h.symm
    simp only [fitting, (Item.content_inj hxy).2.2]
    split
    · rw [List.map_cons, List.map_cons, hxy, ih hrest.symm]
    · rfl

theorem others_congr [BEq κ] {xs ys : List (Item κ ν)}
    (h : xs.map Item.content = ys.map Item.content) (key : κ) :
    (others key xs).map Item.content = (others key ys).map Item.content := by
  have hfilter : ∀ items : List (Item κ ν), (others key items).map Item.content =
      (items.map Item.content).filter fun content => !(content.1 == key) := by
    intro items
    rw [List.filter_map]
    rfl
  rw [hfilter, hfilter, h]

/-- The same keys, values and footprints in the same order, under the same limit. -/
structure Mirrors (r r' : Reference κ ν) : Prop where
  contents : r.items.map Item.content = r'.items.map Item.content
  limit : r.limit = r'.limit

/-- From two references, what comes of an operation differs in stamps and counters only, and the
counters grow alike. -/
structure InStep {α : Type} (r r' : Reference κ ν) (o o' : Outcome (Reference κ ν) α) : Prop where
  reply : o.reply = o'.reply
  after : Mirrors o.after o'.after
  growth : ∃ growth, o.after.counters = r.counters + growth ∧
    o'.after.counters = r'.counters + growth

variable {α β : Type} {r r' : Reference κ ν}

theorem InStep.map {o o' : Outcome (Reference κ ν) α} (h : InStep r r' o o') (f : α → β) :
    InStep r r' (o.map f) (o'.map f) :=
  ⟨congrArg f h.reply, h.after, h.growth⟩

theorem Mirrors.total (h : Mirrors r r') : r.total = r'.total :=
  spaceIn_congr h.contents

theorem Mirrors.length (h : Mirrors r r') : r.items.length = r'.items.length := by
  simpa using congrArg List.length h.contents

/-- Nothing is counted if nothing happens. -/
theorem Mirrors.inStep (h : Mirrors r r') {reply reply' : α} (hreply : reply = reply') :
    InStep r r' { reply, after := r } { reply := reply', after := r' } :=
  ⟨hreply, h, ⟨0, 0, 0, 0⟩, rfl, rfl⟩

theorem Mirrors.keepFitting (h : Mirrors r r') (room : Int) :
    Mirrors (r.keepFitting room) (r'.keepFitting room) ∧
      ∃ growth, (r.keepFitting room).counters = r.counters + growth ∧
        (r'.keepFitting room).counters = r'.counters + growth := by
  have hfitting := fitting_congr h.contents room
  have hlength : (fitting room r.items).length = (fitting room r'.items).length := by
    simpa using congrArg List.length hfitting
  refine ⟨⟨hfitting, h.limit⟩, ⟨0, 0, r.items.length - (fitting room r.items).length, 0⟩, rfl, ?_⟩
  rw [h.length, hlength]
  rfl

theorem Mirrors.pushFront (h : Mirrors r r') (key : κ) (value : ν) (footprint : Int) :
    Mirrors (r.pushFront key value footprint) (r'.pushFront key value footprint) :=
  ⟨congrArg ((key, value, footprint) :: ·) h.contents, h.limit⟩

theorem Mirrors.clear (h : Mirrors r r') : InStep r r' r.clear r'.clear :=
  ⟨rfl, ⟨rfl, h.limit⟩, ⟨0, 0, 0, 0⟩, rfl, rfl⟩

theorem Mirrors.setLimit (h : Mirrors r r') (hr : ∀ item ∈ r.items, 0 ≤ item.footprint)
    (hr' : ∀ item ∈ r'.items, 0 ≤ item.footprint) (limit : Int) :
    InStep r r' (r.setLimit limit) (r'.setLimit limit) := by
  by_cases hlt : limit < r.limit
  · obtain ⟨hkept, hgrowth⟩ := h.keepFitting limit
    rw [setLimit_of_lt hlt hr, setLimit_of_lt (h.limit ▸ hlt) hr']
    exact ⟨rfl, ⟨hkept.contents, rfl⟩, hgrowth⟩
  · rw [Reference.setLimit, Reference.setLimit, if_neg hlt, if_neg (h.limit ▸ hlt)]
    exact ⟨rfl, ⟨h.contents, rfl⟩, ⟨0, 0, 0, 0⟩, rfl, rfl⟩

variable [BEq κ]

theorem Mirrors.without (h : Mirrors r r') (key : κ) :
    Mirrors (r.without key) (r'.without key) :=
  ⟨others_congr h.contents key, h.limit⟩

theorem Mirrors.find? (h : Mirrors r r') (key : κ) :
    (r.find? key).map Item.content = (r'.find? key).map Item.content := by
  have hfind : ∀ items : List (Item κ ν), (items.find? (·.key == key)).map Item.content =
      (items.map Item.content).find? fun content => content.1 == key := by
    intro items
    rw [List.find?_map]
    rfl
  rw [Reference.find?, Reference.find?, hfind, hfind, h.contents]

/-- A key is found in both or in neither, and with the same content. -/
theorem Mirrors.find?_cases (h : Mirrors r r') (key : κ) :
    (r.find? key = none ∧ r'.find? key = none) ∨
      ∃ a b, r.find? key = some a ∧ r'.find? key = some b ∧ a.content = b.content := by
  have hfind := h.find? key
  cases ha : r.find? key with
  | none =>
    rw [ha, Option.map_none, eq_comm, Option.map_eq_none_iff] at hfind
    exact .inl ⟨rfl, hfind⟩
  | some a =>
    rw [ha, Option.map_some, eq_comm, Option.map_eq_some_iff] at hfind
    obtain ⟨b, hb, hab⟩ := hfind
    exact .inr ⟨a, b, rfl, hb, hab.symm⟩

theorem Mirrors.peek (h : Mirrors r r') (key : κ) : r.peek key = r'.peek key := by
  rcases h.find?_cases key with ⟨ha, hb⟩ | ⟨a, b, ha, hb, hab⟩
  · rw [Reference.peek, Reference.peek, ha, hb]
  · rw [Reference.peek, Reference.peek, ha, hb, Option.map_some, Option.map_some,
      (Item.content_inj hab).2.1]

theorem Mirrors.storedKey (h : Mirrors r r') (key : κ) : r.storedKey key = r'.storedKey key := by
  rcases h.find?_cases key with ⟨ha, hb⟩ | ⟨a, b, ha, hb, hab⟩
  · rw [Reference.storedKey, Reference.storedKey, ha, hb]
  · rw [Reference.storedKey, Reference.storedKey, ha, hb, Option.map_some, Option.map_some,
      (Item.content_inj hab).1]

theorem Mirrors.contains (h : Mirrors r r') (key : κ) : r.contains key = r'.contains key := by
  rcases h.find?_cases key with ⟨ha, hb⟩ | ⟨a, b, ha, hb, -⟩
  · rw [Reference.contains, Reference.contains, ha, hb]
  · rw [Reference.contains, Reference.contains, ha, hb]
    rfl

theorem Mirrors.get (h : Mirrors r r') (key : κ) : InStep r r' (r.get key) (r'.get key) := by
  rcases h.find?_cases key with ⟨ha, hb⟩ | ⟨a, b, ha, hb, hab⟩
  · rw [Reference.get, Reference.get, ha, hb]
    exact ⟨rfl, ⟨h.contents, h.limit⟩, ⟨0, 1, 0, 0⟩, rfl, rfl⟩
  · obtain ⟨hkey, hvalue, hfootprint⟩ := Item.content_inj hab
    have hafter : Mirrors ((r.without key).pushFront a.key a.value a.footprint)
        ((r'.without key).pushFront b.key b.value b.footprint) := by
      rw [← hkey, ← hvalue, ← hfootprint]
      exact (h.without key).pushFront a.key a.value a.footprint
    rw [Reference.get, Reference.get, ha, hb]
    exact ⟨congrArg some hvalue, ⟨hafter.contents, h.limit⟩, ⟨1, 0, 0, 0⟩, rfl, rfl⟩

theorem Mirrors.remove (h : Mirrors r r') (key : κ) :
    InStep r r' (r.remove key) (r'.remove key) :=
  ⟨h.peek key, h.without key, ⟨0, 0, 0, 0⟩, rfl, rfl⟩

variable [Footprint ν]

theorem Mirrors.updatesInPlace (h : Mirrors r r') (key : κ) (value : ν) :
    r.updatesInPlace key value = r'.updatesInPlace key value := by
  unfold Reference.updatesInPlace
  rcases h.find?_cases key with ⟨ha, hb⟩ | ⟨a, b, ha, hb, hab⟩
  · rw [ha, hb]
    rfl
  · rw [ha, hb, Option.any_some, Option.any_some, h.total, h.limit, (Item.content_inj hab).2.2]

variable [EquivBEq κ]

theorem Mirrors.put (h : Mirrors r r') (hr : r.WellFormed) (hr' : r'.WellFormed) (key : κ)
    (value : ν) : InStep r r' (r.put key value) (r'.put key value) := by
  have hwithout := h.without key
  by_cases hlarge : r.limit < spaceOf value
  · rw [hr.put_of_lt key hlarge, hr'.put_of_lt key (h.limit ▸ hlarge)]
    exact ⟨rfl, ⟨hwithout.contents, hwithout.limit⟩, ⟨0, 0, 0, 1⟩, rfl, rfl⟩
  · cases hplace : r.updatesInPlace key value with
    | true =>
      obtain ⟨a, ha, hput⟩ := put_of_updates hplace
      rw [h.updatesInPlace] at hplace
      obtain ⟨b, hb, hput'⟩ := put_of_updates hplace
      have hkey : a.key = b.key := by
        have hfind := h.find? key
        rw [ha, hb, Option.map_some, Option.map_some, Option.some.injEq] at hfind
        exact (Item.content_inj hfind).1
      rw [hput, hput', hkey]
      exact ⟨rfl, hwithout.pushFront b.key value (spaceOf value), ⟨0, 0, 0, 0⟩, rfl, rfl⟩
    | false =>
      have hplace' := hplace
      rw [h.updatesInPlace] at hplace'
      have hsmall : spaceOf value ≤ (r.without key).limit := Int.not_lt.1 hlarge
      have hsmall' : spaceOf value ≤ (r'.without key).limit := hwithout.limit ▸ hsmall
      obtain ⟨hkept, hgrowth⟩ := hwithout.keepFitting ((r.without key).limit - spaceOf value)
      rw [put_of_not_updates hplace, put_of_not_updates hplace',
        insertAbsent_of_le hsmall (hr.without_nonneg key),
        insertAbsent_of_le hsmall' (hr'.without_nonneg key), ← hwithout.limit]
      exact ⟨rfl, hkept.pushFront key value (spaceOf value), hgrowth⟩

/-- No operation tells the two references apart. -/
theorem Mirrors.apply (h : Mirrors r r') (hr : r.WellFormed) (hr' : r'.WellFormed)
    (op : Operation κ ν) : InStep r r' (r.apply op) (r'.apply op) := by
  cases op with
  | put key value => exact (h.put hr hr' key value).map Reply.echo
  | get key => exact (h.get key).map Reply.found
  | peek key => exact h.inStep (congrArg Reply.found (h.peek key))
  | storedKey key => exact h.inStep (congrArg Reply.key (h.storedKey key))
  | contains key => exact h.inStep (congrArg Reply.answer (h.contains key))
  | remove key => exact (h.remove key).map Reply.found
  | erase key => exact ⟨rfl, (h.remove key).after, (h.remove key).growth⟩
  | clear => exact h.clear.map fun _ => Reply.done
  | setLimit limit =>
    exact (h.setLimit hr.footprint_nonneg hr'.footprint_nonneg limit).map fun _ => Reply.done

end Reference

/-! ## Twin tables -/

namespace Table

variable {κ ν : Type} [BEq κ] [Hashable κ]

/-- Nothing tells the tables apart but slots, stamps and counters. -/
structure LooksLike (t t' : Table κ ν) : Prop where
  order : t.chain.entries.map Entry.content = t'.chain.entries.map Entry.content
  find : ∀ key, (t.find? key).map Entry.content = (t'.find? key).map Entry.content
  contains : ∀ key, t.contains key = t'.contains key
  size : t.size = t'.size
  used : t.used = t'.used
  limit : t.limit = t'.limit

variable [Footprint ν]

/-- Two sound tables that show as references which mirror one another. -/
structure Twins (t t' : Table κ ν) : Prop where
  sound : t.Sound
  sound' : t'.Sound
  mirrors : Reference.Mirrors t.view t'.view

variable [EquivBEq κ] [LawfulHashable κ] {t t' : Table κ ν}

theorem Twins.looksLike (h : Twins t t') : t.LooksLike t' := by
  have hcontent : ∀ {s : Table κ ν}, s.Sound → ∀ key,
      (s.find? key).map Entry.content = (s.view.find? key).map Item.content := by
    intro s hs key
    rw [← hs.find?, Option.map_map]
    rfl
  have horder := h.mirrors.contents
  rw [view, view, List.map_map, List.map_map] at horder
  constructor
  case order => exact horder
  case find =>
    intro key
    rw [hcontent h.sound, hcontent h.sound', h.mirrors.find?]
  case contains =>
    intro key
    rw [h.sound.contains, h.sound'.contains, h.mirrors.contains]
  case size => rw [h.sound.size, h.sound'.size, h.mirrors.length]
  case used => rw [h.sound.used, h.sound'.used, h.mirrors.total]
  case limit => exact h.mirrors.limit

theorem Twins.apply (h : Twins t t') (op : Operation κ ν) :
    (t.apply op).reply = (t'.apply op).reply ∧ Twins (t.apply op).after (t'.apply op).after ∧
      ∃ growth, (t.apply op).after.counters = t.counters + growth ∧
        (t'.apply op).after.counters = t'.counters + growth := by
  have hmatches := h.sound.apply op
  have hmatches' := h.sound'.apply op
  obtain ⟨hreply, hafter, hgrowth⟩ :=
    h.mirrors.apply h.sound.wellFormed h.sound'.wellFormed op
  rw [← hmatches.reply, ← hmatches'.reply] at hreply
  rw [← hmatches.view, ← hmatches'.view] at hafter hgrowth
  exact ⟨hreply, ⟨hmatches.sound, hmatches'.sound, hafter⟩, hgrowth⟩

theorem Twins.run (h : Twins t t') (ops : List (Operation κ ν)) :
    (t.run ops).reply = (t'.run ops).reply ∧ Twins (t.run ops).after (t'.run ops).after ∧
      ∃ growth, (t.run ops).after.counters = t.counters + growth ∧
        (t'.run ops).after.counters = t'.counters + growth := by
  induction ops generalizing t t' with
  | nil => exact ⟨rfl, h, ⟨0, 0, 0, 0⟩, rfl, rfl⟩
  | cons op ops ih =>
    obtain ⟨hreply, hafter, first, hfirst, hfirst'⟩ := h.apply op
    obtain ⟨hreplies, hlast, rest, hrest, hrest'⟩ := ih hafter
    refine ⟨?_, hlast, first + rest, ?_, ?_⟩
    · simp only [Table.run, hreply, hreplies]
    · rw [Table.run, hrest, hfirst, Counters.add_assoc]
    · rw [Table.run, hrest', hfirst', Counters.add_assoc]

end Table

namespace Reference

variable {κ ν : Type}

theorem content_restamp (clock : Nat) (items : List (Item κ ν)) :
    (restamp clock items).map Item.content = items.map Item.content := by
  induction items generalizing clock with
  | nil => rfl
  | cons item items ih => exact congrArg (item.content :: ·) (ih (clock + 1))

theorem stamp_restamp (clock : Nat) (items : List (Item κ ν)) :
    (restamp clock items).map (·.stamp) = List.range' clock items.length := by
  induction items generalizing clock with
  | nil => rfl
  | cons item items ih => exact congrArg (clock :: ·) (ih (clock + 1))

end Reference

namespace Cache

variable {κ ν : Type} [BEq κ] [Hashable κ] [Footprint ν] [EquivBEq κ] [LawfulHashable κ]

theorem Ready.copy_counters {c : Cache κ ν} (h : c.Ready) :
    c.copy.counters = (c.recipe c.limit).table.counters := by
  have hcounters := congrArg Reference.counters h.view_copy.2
  rw [Reference.pushAll_eq] at hcounters
  exact hcounters

/-- A copy has the items of its source, stamped anew from the oldest on. -/
theorem Ready.copy_fromOldest {c : Cache κ ν} (h : c.Ready) :
    c.copy.chain.fromOldest.map (·.2.item) =
      Reference.restamp (c.recipe c.limit).table.chain.clock
        (c.chain.fromOldest.map (·.2.item)) := by
  rw [h.copy.sound.fromOldest, h.sound.fromOldest, h.copy_items, List.reverse_reverse]

theorem Ready.twins_copy {c : Cache κ ν} (h : c.Ready)
    (hlimit : (c.recipe c.limit).table.limit = c.limit) :
    Table.Twins c.toTable c.copy.toTable := by
  refine ⟨h.sound, h.copy.sound, ?_, ?_⟩
  · rw [h.copy_items, List.map_reverse, Reference.content_restamp, List.map_reverse,
      List.reverse_reverse]
  · exact (h.copy_limit.trans hlimit).symm

/-- A copy of a reachable cache, whose recipe makes the table of an empty reachable cache for its
limit, has the name and the recipe of its source, the same entries in the same order and the same
space in use; limit and counters are those of the fresh table, whose clock goes on with the stamps
of the entries, the oldest first. If the fresh table has the limit of the source, then no history
tells the copy from its source: the replies are the same, and after every step so is all that can be
seen but slots, stamps and counters, and the counters have grown by the same numbers. -/
theorem Reachable.copy_equivalent {c made : Cache κ ν} (h : c.Reachable) (hmade : made.Reachable)
    (hempty : made.isEmpty = true) (recipe : Int → Fresh κ ν)
    (hrecipe : (recipe c.limit).table = made.toTable) :
    let source := c.withRecipe recipe
    source.copy.name = source.name ∧ source.copy.recipe = source.recipe ∧
      source.copy.chain.fromOldest.map (·.2.content) =
        source.chain.fromOldest.map (·.2.content) ∧
      source.copy.used = source.used ∧ source.copy.limit = made.limit ∧
      source.copy.counters = made.counters ∧
      source.copy.chain.fromOldest.map (·.2.stamp) =
        List.range' made.chain.clock source.size ∧
      source.copy.toTable.Consistent ∧
      (made.limit = source.limit → ∀ ops,
        (source.copy.run ops).reply = (source.run ops).reply ∧
          ∀ n, (source.run (ops.take n)).after.toTable.LooksLike
              (source.copy.run (ops.take n)).after.toTable ∧
            ∃ growth, (source.run (ops.take n)).after.counters = source.counters + growth ∧
              (source.copy.run (ops.take n)).after.counters = source.copy.counters + growth) := by
  intro source
  -- Only the table made for this limit matters, so the recipe may as well make no other.
  set same := c.withRecipe fun _ => recipe c.limit with hsame
  have hready : same.Ready :=
    (h.withRecipe (fun _ => made) (fun _ => hmade) (fun _ => hempty) _ fun _ => hrecipe).ready
  have hcopy : source.copy.toTable = same.copy.toTable := rfl
  have hfresh : (same.recipe same.limit).table = made.toTable := hrecipe
  have hitems := hready.copy_fromOldest
  have hlength : (same.chain.fromOldest.map (·.2.item)).length = source.size := by
    rw [hready.sound.fromOldest, List.length_reverse]
    exact hready.sound.size.symm
  have hcontents := congrArg (List.map Item.content) hitems
  have hstamps := congrArg (List.map (·.stamp)) hitems
  rw [Reference.content_restamp, List.map_map, List.map_map] at hcontents
  rw [Reference.stamp_restamp, List.map_map, hlength, hfresh] at hstamps
  refine ⟨rfl, rfl, hcontents, hready.copy_used, ?_, ?_, hstamps, hready.copy.sound.consistent,
    fun hlimit ops => ?_⟩
  · exact hready.copy_limit.trans (congrArg Table.limit hfresh)
  · exact hready.copy_counters.trans (congrArg Table.counters hfresh)
  · have htwins := hready.twins_copy ((congrArg Table.limit hfresh).trans hlimit)
    simp only [run_eq_onTable, reply_onTable, toTable_onTable, hcopy]
    refine ⟨(htwins.run ops).1.symm, fun n => ?_⟩
    obtain ⟨-, hafter, hgrowth⟩ := htwins.run (ops.take n)
    exact ⟨hafter.looksLike, hgrowth⟩

/-- The fresh table has been used before, so that the stamps of the copy start at two. -/
theorem copy_equivalent_used_table :
    let history : List (Operation Nat String) := [.put 7 "x", .get 7, .remove 7]
    let source : Cache Nat String := (((empty "demo" 3).apply (.put 1 "a")).after.apply
      (.put 2 "b")).after.withRecipe (Fresh.used "fresh" history)
    source.copy.chain.fromOldest.map (·.2.content) = [(1, "a", 1), (2, "b", 1)] ∧
      source.copy.chain.fromOldest.map (·.2.stamp) = [2, 3] ∧ source.copy.counters.hits = 1 ∧
      ∀ ops, (source.copy.run ops).reply = (source.run ops).reply := by
  intro history source
  let made : Cache Nat String := ((empty "fresh" 3).run history).after
  have hempty : (empty "demo" 3 : Cache Nat String).Reachable := .empty "demo" 3
  have hsource := (hempty.apply (.put 1 "a")).apply (.put 2 "b")
  have hmade : made.Reachable :=
    (((Reachable.empty "fresh" 3).apply (.put 7 "x")).apply (.get 7)).apply (.remove 7)
  have hnone : made.isEmpty = true := hmade.ready.sound.showsAs.isEmpty.trans (by cbv)
  have hsize : source.size = 2 := hsource.ready.sound.size.trans (by cbv)
  have hrecipe : (Fresh.used "fresh" history source.limit).table = made.toTable := by
    have hlimit : source.limit = 3 := by cbv
    rw [hlimit]
    rfl
  obtain ⟨-, -, hcontents, -, -, hcounters, hstamps, -, hreplies⟩ :=
    hsource.copy_equivalent hmade hnone (Fresh.used "fresh" history) hrecipe
  refine ⟨hcontents.trans (by cbv), hstamps.trans ?_, ?_, fun ops => ?_⟩
  · have hclock : made.chain.clock = 2 := by cbv
    show List.range' made.chain.clock source.size = [2, 3]
    rw [hsize, hclock]
    rfl
  · rw [hcounters]
    cbv
  · exact (hreplies (by cbv) ops).1

end Cache

end BudgetCache
