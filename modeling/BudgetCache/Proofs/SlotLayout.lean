import BudgetCache.Proofs.CacheHistory
import BudgetCache.Proofs.Reachable

/-!
# Slot numbers do not show

Removing the same keys in another order leaves other slots vacant, or the same ones in another
order, and clearing a cache leaves no slots at all. Entries that are added later then come to stand
in different slots. No caller can tell: two caches that show the same items, limit, clock and
counters, and have the same name and recipe, answer alike for good. What is done to them later may
be anything that is done to a cache, copying and new recipes included.
-/

namespace BudgetCache

namespace Table

variable {κ ν : Type} [BEq κ] [Hashable κ]

/-- Everything that can be seen of the two tables is the same. -/
structure ShowsSame (t t' : Table κ ν) : Prop where
  order : t.chain.entries.map Entry.item = t'.chain.entries.map Entry.item
  reverse : t.chain.fromOldest.map (·.2.item) = t'.chain.fromOldest.map (·.2.item)
  /-- The index is walked in no particular order. -/
  toList : t.toList.Perm t'.toList
  find : ∀ key, (t.find? key).map Entry.item = (t'.find? key).map Entry.item
  contains : ∀ key, t.contains key = t'.contains key
  isEmpty : t.isEmpty = t'.isEmpty
  used : t.used = t'.used
  limit : t.limit = t'.limit
  clock : t.chain.clock = t'.chain.clock
  usage : t.usage = t'.usage
  oldestKey : t.oldestKey? = t'.oldestKey?
  oldestStamp : t.oldestStamp = t'.oldestStamp
  newestStamp : t.newestStamp = t'.newestStamp

theorem ShowsAs.showsSame {t t' : Table κ ν} {r : Reference κ ν} (h : t.ShowsAs r)
    (h' : t'.ShowsAs r) : t.ShowsSame t' := by
  constructor
  case order => rw [h.order, h'.order]
  case reverse => rw [h.reverse, h'.reverse]
  case toList => exact h.toList.trans h'.toList.symm
  case find => intro key; rw [h.find, h'.find]
  case contains => intro key; rw [h.contains, h'.contains]
  case isEmpty => rw [h.isEmpty, h'.isEmpty]
  case used => rw [h.used, h'.used]
  case limit => rw [h.limit, h'.limit]
  case clock => rw [h.clock, h'.clock]
  case usage =>
    rw [Table.usage, Table.usage, h.counters, h'.counters, h.size, h'.size, h.used, h'.used,
      h.limit, h'.limit]
  case oldestKey => rw [h.oldestKey, h'.oldestKey]
  case oldestStamp => rw [h.oldestStamp, h'.oldestStamp]
  case newestStamp => rw [h.newestStamp, h'.newestStamp]

end Table

/-! ## Removing several keys -/

/-- The lists name the same keys, in whatever order and by whatever instances. -/
def SameKeys {κ : Type} [BEq κ] (keys keys' : List κ) : Prop :=
  ∀ key, (∃ k ∈ keys, (key == k) = true) ↔ ∃ k ∈ keys', (key == k) = true

theorem SameKeys.of_perm {κ : Type} [BEq κ] {keys keys' : List κ} (h : keys.Perm keys') :
    SameKeys keys keys' := by
  intro key
  simp only [h.mem_iff]

namespace Reference

variable {κ ν : Type} [BEq κ] [Footprint ν]

/-- Removing keys one after the other leaves the items of all other keys. -/
theorem run_remove (r : Reference κ ν) (keys : List κ) :
    (r.run (keys.map .remove)).after =
      { r with items := r.items.filter fun item => !keys.any (item.key == ·) } := by
  induction keys generalizing r with
  | nil =>
    have hall : r.items.filter (fun item => !([] : List κ).any (item.key == ·)) = r.items :=
      List.filter_eq_self.2 fun _ _ => rfl
    rw [hall]
    rfl
  | cons key keys ih =>
    have hrest := ih (r.without key)
    have hitems : (others key r.items).filter (fun item => !keys.any (item.key == ·)) =
        r.items.filter fun item => !(key :: keys).any (item.key == ·) := by
      rw [others, List.filter_filter]
      refine List.filter_congr fun item _ => ?_
      rw [List.any_cons, Bool.not_or, Bool.and_comm]
    rw [without, hitems] at hrest
    exact hrest

theorem run_remove_congr (r : Reference κ ν) {keys keys' : List κ} (h : SameKeys keys keys') :
    (r.run (keys.map .remove)).after = (r.run (keys'.map .remove)).after := by
  rw [run_remove, run_remove]
  have hany : ∀ key, keys.any (key == ·) = keys'.any (key == ·) := by
    intro key
    rw [Bool.eq_iff_iff, List.any_eq_true, List.any_eq_true]
    exact h key
  simp only [hany]

/-- Removing every key is clearing. -/
theorem run_remove_all {r : Reference κ ν} {keys : List κ}
    (h : ∀ item ∈ r.items, ∃ k ∈ keys, (item.key == k) = true) :
    (r.run (keys.map .remove)).after = r.clear.after := by
  have hnone : r.items.filter (fun item => !keys.any (item.key == ·)) = [] := by
    refine List.filter_eq_nil_iff.2 ?_
    intro item hitem
    simpa using h item hitem
  rw [run_remove, hnone]
  rfl

end Reference

namespace Cache

variable {κ ν : Type} [BEq κ] [Hashable κ] [Footprint ν]

/-! ## Two caches treated alike -/

/-- The pairs of caches to which `c` and `d` may come by doing the same to both. -/
inductive Lockstep (c d : Cache κ ν) : Cache κ ν → Cache κ ν → Prop
  | start : Lockstep c d c d
  | apply {x y : Cache κ ν} (h : Lockstep c d x y) (op : Operation κ ν) :
    Lockstep c d (x.apply op).after (y.apply op).after
  | withRecipe {x y : Cache κ ν} (h : Lockstep c d x y) (made : Int → Cache κ ν)
    (hmade : ∀ limit, (made limit).Reachable) (hempty : ∀ limit, (made limit).isEmpty = true)
    (recipe : Int → Fresh κ ν) (hrecipe : ∀ limit, (recipe limit).table = (made limit).toTable) :
    Lockstep c d (x.withRecipe recipe) (y.withRecipe recipe)
  | copy {x y : Cache κ ν} (h : Lockstep c d x y) : Lockstep c d x.copy y.copy

/-- Whatever is done to both caches, they look the same after every step, and every operation has
the same reply on both and leaves the same in the log. -/
def Indistinguishable (c d : Cache κ ν) : Prop :=
  ∀ x y, Lockstep c d x y → x.name = y.name ∧ x.toTable.ShowsSame y.toTable ∧
    x.copyLog = y.copyLog ∧
    ∀ op, (x.apply op).reply = (y.apply op).reply ∧ (x.apply op).events = (y.apply op).events

theorem Lockstep.run {c d x y : Cache κ ν} (h : Lockstep c d x y) (ops : List (Operation κ ν)) :
    Lockstep c d (x.run ops).after (y.run ops).after := by
  induction ops generalizing x y with
  | nil => exact h
  | cons op ops ih => exact ih (h.apply op)

theorem Indistinguishable.reply_run {c d x y : Cache κ ν} (h : Indistinguishable c d)
    (hsteps : Lockstep c d x y) (ops : List (Operation κ ν)) :
    (x.run ops).reply = (y.run ops).reply ∧ (x.run ops).events = (y.run ops).events := by
  induction ops generalizing x y with
  | nil => exact ⟨rfl, rfl⟩
  | cons op ops ih =>
    obtain ⟨-, -, -, hstep⟩ := h x y hsteps
    obtain ⟨hreply, hevents⟩ := hstep op
    obtain ⟨hreplies, hlog⟩ := ih (hsteps.apply op)
    unfold run
    dsimp only
    rw [hreply, hevents, hreplies, hlog]
    exact ⟨rfl, rfl⟩

/-- The replies to a history are the same, and so is all that can be seen after it. -/
theorem Indistinguishable.run {c d : Cache κ ν} (h : Indistinguishable c d)
    (ops : List (Operation κ ν)) :
    (c.run ops).reply = (d.run ops).reply ∧
      (c.run ops).after.toTable.ShowsSame (d.run ops).after.toTable := by
  obtain ⟨-, hshows, -, -⟩ := h _ _ (Lockstep.start.run ops)
  exact ⟨(h.reply_run .start ops).1, hshows⟩

/-- Two caches that differ in nothing but the slots of their entries. -/
structure SameButSlots (c d : Cache κ ν) : Prop where
  left : c.Ready
  right : d.Ready
  view : c.view = d.view
  name : c.name = d.name
  recipe : c.recipe = d.recipe

variable [EquivBEq κ] [LawfulHashable κ]

theorem SameButSlots.lockstep {c d x y : Cache κ ν} (h : SameButSlots c d)
    (hsteps : Lockstep c d x y) : SameButSlots x y := by
  induction hsteps with
  | start => exact h
  | @apply x y _ op ih =>
    have hleft := ih.left.sound.apply op
    have hright := ih.right.sound.apply op
    refine ⟨ih.left.apply op, ih.right.apply op, ?_, ih.name, ih.recipe⟩
    -- slots are no part of a view, and the view alone decides what the next view is
    show (x.toTable.apply op).after.view = (y.toTable.apply op).after.view
    rw [hleft.view, hright.view, ih.view]
  | withRecipe _ made hmade hempty recipe hrecipe ih =>
    have hsound : ∀ limit, (made limit).toTable.Sound := fun limit => (hmade limit).ready.sound
    exact ⟨ih.left.withRecipe hsound hempty hrecipe, ih.right.withRecipe hsound hempty hrecipe,
      ih.view, ih.name, rfl⟩
  | @copy x y _ ih =>
    refine ⟨ih.left.copy, ih.right.copy, ?_, ih.name, ih.recipe⟩
    have hlimit : x.limit = y.limit := congrArg Reference.limit ih.view
    rw [ih.left.view_copy.2, ih.right.view_copy.2, ih.view, ih.recipe, hlimit]

theorem SameButSlots.indistinguishable {c d : Cache κ ν} (h : SameButSlots c d) :
    Indistinguishable c d := by
  intro x y hsteps
  have hsame := h.lockstep hsteps
  have hleft := hsame.left.sound
  have hright := hsame.right.sound
  refine ⟨hsame.name, ?_, ?_, ?_⟩
  · have hshows := hright.showsAs
    rw [← hsame.view] at hshows
    exact hleft.showsAs.showsSame hshows
  · have hlimit : x.limit = y.limit := congrArg Reference.limit hsame.view
    rw [copyLog, copyLog, hsame.recipe, hlimit]
  · intro op
    have hreply := (hleft.apply op).reply.trans (hsame.view ▸ (hright.apply op).reply.symm)
    have hevents := (hleft.apply op).events.trans (hsame.view ▸ (hright.apply op).events.symm)
    exact ⟨hreply, hevents⟩

theorem Ready.run {c : Cache κ ν} (h : c.Ready) (ops : List (Operation κ ν)) :
    (c.run ops).after.Ready := by
  induction ops generalizing c with
  | nil => exact h
  | cons op ops ih => exact ih (h.apply op)

/-- The order in which keys are removed from a cache, and whether all of them are removed one by one
or the cache is cleared, makes no difference that could ever be seen. -/
theorem Reachable.indistinguishable_removed {c : Cache κ ν} (h : c.Reachable) :
    (∀ keys keys' : List κ, SameKeys keys keys' →
        Indistinguishable (c.run (keys.map .remove)).after (c.run (keys'.map .remove)).after) ∧
      ∀ keys : List κ, (∀ key, c.contains key = true → ∃ k ∈ keys, (key == k) = true) →
        Indistinguishable (c.run (keys.map .remove)).after (c.apply .clear).after := by
  have hready := h.ready
  have hview : ∀ ops, (c.run ops).after.view = (c.view.run ops).after := by
    intro ops
    rw [run_eq_onTable]
    exact (hready.sound.run ops).view
  have hname : ∀ ops, (c.run ops).after.name = c.name ∧ (c.run ops).after.recipe = c.recipe := by
    intro ops
    rw [run_eq_onTable]
    exact ⟨rfl, rfl⟩
  refine ⟨?_, ?_⟩
  · intro keys keys' hkeys
    refine SameButSlots.indistinguishable ⟨hready.run _, hready.run _, ?_, ?_, ?_⟩
    · rw [hview, hview, Reference.run_remove_congr c.view hkeys]
    · rw [(hname _).1, (hname _).1]
    · rw [(hname _).2, (hname _).2]
  · intro keys hall
    refine SameButSlots.indistinguishable ⟨hready.run _, hready.apply .clear, ?_, ?_, ?_⟩
    · have hitems : ∀ item ∈ c.view.items, ∃ k ∈ keys, (item.key == k) = true := by
        intro item hitem
        refine hall item.key ?_
        rw [hready.sound.contains, Reference.contains, Reference.find?, List.find?_isSome]
        exact ⟨item, hitem, BEq.rfl⟩
      rw [hview, Reference.run_remove_all hitems]
      exact hready.sound.clear.view.symm
    · exact (hname _).1
    · exact (hname _).2

/-- Two orders of removal, after which the next key gets another slot. -/
theorem indistinguishable_removed_two :
    let c : Cache Nat String :=
      ((empty "demo" 3).run [.put 1 "a", .put 2 "b", .put 3 "c"]).after
    let x := (c.run ([1, 3].map .remove)).after
    let y := (c.run ([3, 1].map .remove)).after
    let later : List (Operation Nat String) := [.put 4 "d", .get 2, .setLimit 1]
    Indistinguishable x y ∧ (x.run later).reply = (y.run later).reply ∧
      x.chain.vacant = [2, 0] ∧ y.chain.vacant = [0, 2] ∧
      Indistinguishable (c.run ([3, 2, 1].map .remove)).after (c.apply .clear).after := by
  intro c x y later
  have hempty : (empty "demo" 3 : Cache Nat String).Reachable := .empty "demo" 3
  have hreachable : c.Reachable :=
    ((hempty.apply (.put 1 "a")).apply (.put 2 "b")).apply (.put 3 "c")
  obtain ⟨horders, hcleared⟩ := hreachable.indistinguishable_removed
  have hxy : Indistinguishable x y := horders [1, 3] [3, 1] (.of_perm (by decide))
  have hkeys : ∀ key, c.contains key = true → ∃ k ∈ [3, 2, 1], (key == k) = true := by
    have hitems : c.view.items = [⟨3, "c", 1, 2⟩, ⟨2, "b", 1, 1⟩, ⟨1, "a", 1, 0⟩] := by cbv
    intro key hkey
    rw [hreachable.ready.sound.contains, Reference.contains, Reference.find?, hitems] at hkey
    have hthree : 3 = key ∨ 2 = key ∨ 1 = key := by simpa using hkey
    refine ⟨key, ?_, BEq.rfl⟩
    rcases hthree with rfl | rfl | rfl <;> decide
  exact ⟨hxy, (hxy.run later).1, by cbv, by cbv, hcleared [3, 2, 1] hkeys⟩

end Cache

end BudgetCache
