import BudgetCache.Cache.Basic
import BudgetCache.Proofs.Refinement
import Mathlib

/-!
# Histories of a cache

What can be asked of a table is read off its chain, its index, its budget or its counters. For a
sound table all the answers are those of the reference that it shows as. A fresh cache is sound and
every operation keeps it so, hence a history of a fresh cache replies as the reference does and
cannot be told from it after any step.
-/

namespace BudgetCache

/-! ## What can be seen of a table -/

namespace Table

variable {κ ν : Type} [BEq κ] [Hashable κ]

/-- Everything that can be seen of the table is as the reference has it. -/
structure ShowsAs (t : Table κ ν) (r : Reference κ ν) : Prop where
  order : t.chain.entries.map Entry.item = r.items
  reverse : t.chain.fromOldest.map (·.2.item) = r.items.reverse
  toList : t.toList.Perm (r.items.map fun item => (item.key, item.value))
  find : ∀ key, (t.find? key).map Entry.item = r.find? key
  contains : ∀ key, t.contains key = (r.find? key).isSome
  size : t.size = r.items.length
  isEmpty : t.isEmpty = r.items.isEmpty
  used : t.used = r.total
  limit : t.limit = r.limit
  clock : t.chain.clock = r.clock
  counters : t.counters = r.counters
  oldestKey : t.oldestKey? = r.items.getLast?.map (·.key)
  oldestStamp : t.oldestStamp = (r.items.getLast?.map (·.stamp)).getD 0
  newestStamp : t.newestStamp = (r.items.head?.map (·.stamp)).getD 0

variable [Footprint ν] [EquivBEq κ] [LawfulHashable κ]

theorem Sound.showsAs {t : Table κ ν} (h : t.Sound) : t.ShowsAs t.view := by
  have hsize := h.size
  have hused := h.used
  have hfind := h.find?
  have hcontains := h.contains
  have hreverse := h.fromOldest
  obtain ⟨cells, hagrees, -⟩ := h
  have hback : t.chain.back?.map Entry.item = t.view.items.getLast? := by
    rw [hagrees.chain.back?, hagrees.items, List.getLast?_map]
  have hfront : t.chain.front?.map Entry.item = t.view.items.head? := by
    rw [hagrees.chain.front?, hagrees.items, List.head?_map]
  constructor
  case order => rfl
  case reverse => exact hreverse
  case toList => simpa [hagrees.items] using hagrees.toList_perm
  case find => exact hfind
  case contains => exact hcontains
  case size => exact hsize
  case isEmpty =>
    rw [Bool.eq_iff_iff, hagrees.isEmpty, hagrees.items, List.isEmpty_iff, List.map_eq_nil_iff]
  case used => exact hused
  case limit => rfl
  case clock => rfl
  case counters => rfl
  case oldestKey => rw [oldestKey?, ← hback, Option.map_map]; rfl
  case oldestStamp => rw [Table.oldestStamp, ← hback, Option.map_map]; rfl
  case newestStamp => rw [Table.newestStamp, ← hfront, Option.map_map]; rfl

end Table

namespace Cache

variable {κ ν : Type} [BEq κ] [Hashable κ] [Footprint ν]

/-- Carries out a list of operations. The reply lists the replies. -/
def run (c : Cache κ ν) : List (Operation κ ν) → Outcome (Cache κ ν) (List (Reply κ ν))
  | [] => { reply := [], after := c }
  | op :: ops =>
    let first := c.apply op
    let rest := first.after.run ops
    { reply := first.reply :: rest.reply
      after := rest.after
      events := first.events ++ rest.events }

theorem run_eq_onTable (c : Cache κ ν) (ops : List (Operation κ ν)) :
    c.run ops = c.onTable (·.run ops) := by
  induction ops generalizing c with
  | nil => rfl
  | cons op ops ih =>
    simp only [run, ih]
    rfl

variable [EquivBEq κ] [LawfulHashable κ]

/-- A history of a fresh cache gives the replies and the events of the reference, and after each
step the cache shows as the reference. -/
theorem run_empty_showsAs (name : String) (limit : Int) (ops : List (Operation κ ν)) :
    ((empty name limit).run ops).reply = ((Reference.empty limit).run ops).reply ∧
      ((empty name limit).run ops).events = ((Reference.empty limit).run ops).events ∧
      ∀ n, ((empty name limit).run (ops.take n)).after.toTable.ShowsAs
        ((Reference.empty limit).run (ops.take n)).after := by
  have hsound := Table.sound_empty (κ := κ) (ν := ν) limit
  have hrun : ∀ ops, Table.Matches ((Table.empty limit).run ops)
      ((Reference.empty limit).run ops) := hsound.run
  simp only [run_eq_onTable, reply_onTable, events_onTable, toTable_onTable]
  refine ⟨(hrun ops).reply, (hrun ops).events, fun n => ?_⟩
  rw [← (hrun (ops.take n)).view]
  exact (hrun (ops.take n)).sound.showsAs

/-- Of three entries under a limit of two, the one touched longest ago is dropped. -/
theorem run_empty_showsAs_two :
    ((empty "demo" 2).run [.put 1 "a", .put 2 "b", .get 1, .put 3 "c", .peek 2]).reply =
        [.echo "a", .echo "b", .found (some "a"), .echo "c", .found none] ∧
      ((empty "demo" 2).run [.put 1 "a", .put 2 "b", .get 1, .put 3 "c"]).after.toTable.ShowsAs
        { items := [⟨3, "c", 1, 3⟩, ⟨1, "a", 1, 2⟩], limit := 2, clock := 4
          counters := { hits := 1, evictions := 1 } } := by
  obtain ⟨hreply, -, hshows⟩ := run_empty_showsAs "demo" 2
    [.put 1 "a", .put 2 "b", .get 1, .put 3 "c", .peek (κ := Nat) 2]
  have hreference : ((Reference.empty 2).run
      [.put 1 "a", .put 2 "b", .get 1, .put (κ := Nat) 3 "c"]).after =
        { items := [⟨3, "c", 1, 3⟩, ⟨1, "a", 1, 2⟩], limit := 2, clock := 4
          counters := { hits := 1, evictions := 1 } } := by cbv
  refine ⟨hreply.trans (by cbv), ?_⟩
  rw [← hreference]
  exact hshows 4

end Cache

end BudgetCache
