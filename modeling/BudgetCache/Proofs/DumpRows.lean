import BudgetCache.Cache.Display
import BudgetCache.Proofs.CacheHistory
import BudgetCache.Proofs.Reachable
import Mathlib

/-!
# The rows of a dump

The rows of a dump are the texts of the entries, sorted by the texts of the keys. If different keys
have different texts, no two rows begin alike, and the order of the rows is the only one there is.
So neither the order of the last touches nor the order of the index shows in a dump: the texts of
the entries, the name, the limit and the space in use determine it.
-/

namespace BudgetCache

namespace Cache

variable {κ ν : Type} [BEq κ] [Hashable κ]

/-- The keys and values, the newest first. -/
def contents (c : Cache κ ν) : List (κ × ν) :=
  c.chain.entries.map fun entry => (entry.key, entry.value)

/-- The texts of the keys and values, the newest first. -/
def texts [Shown κ] [Shown ν] (c : Cache κ ν) : List (String × String) :=
  c.contents.map fun pair => (Shown.shown pair.1, Shown.shown pair.2)

/-- The space that the values take up. -/
def valueSpace [Footprint ν] (c : Cache κ ν) : Int :=
  (c.contents.map fun pair => spaceOf pair.2).sum

theorem contents_eq (c : Cache κ ν) :
    c.contents = c.view.items.map fun item => (item.key, item.value) := by
  rw [contents, Table.view, List.map_map]
  rfl

theorem heading_congr {c d : Cache κ ν} (hlimit : c.limit = d.limit) (hused : c.used = d.used)
    (name : String) : c.heading name = d.heading name := by
  have hbudget : c.budget = d.budget := by
    rw [Budget.mk.injEq]
    exact ⟨hused, hlimit⟩
  rw [heading, heading, hlimit, Table.percentUsed, Table.percentUsed, hbudget]

variable [Footprint ν] [EquivBEq κ] [LawfulHashable κ]

theorem Reachable.used_eq {c : Cache κ ν} (h : c.Reachable) : c.used = c.valueSpace := by
  have hfair := h.structures_agree.fair
  rw [h.structures_agree.used, valueSpace, contents]
  generalize c.chain.entries = entries at hfair ⊢
  induction entries with
  | nil => rfl
  | cons entry entries ih =>
    obtain ⟨hentry, hentries⟩ := List.forall_mem_cons.1 hfair
    have hitem : entry.item.footprint = spaceOf entry.value := hentry
    rw [List.map_cons, Reference.spaceIn_cons, ih hentries, hitem]
    rfl

theorem Reachable.perm_toList {c : Cache κ ν} (h : c.Reachable) : c.toList.Perm c.contents := by
  rw [contents_eq]
  exact h.ready.sound.showsAs.toList

variable [Shown κ] [Shown ν]

theorem Reachable.perm_rows {c : Cache κ ν} (h : c.Reachable) : c.rows.Perm c.texts :=
  (List.mergeSort_perm _ _).trans (h.perm_toList.map _)

/-- The rows stand in the order of the key texts, no two of which are equal. -/
theorem Reachable.pairwise_rows {c : Cache κ ν} (h : c.Reachable)
    (hshown : ∀ a b : κ, Shown.shown a = Shown.shown b → (a == b) = true) :
    c.rows.Pairwise fun a b => a.1 < b.1 := by
  have hsorted : c.rows.Pairwise fun a b => decide (a.1 ≤ b.1) = true := by
    refine List.pairwise_mergeSort ?_ ?_ _
    · intro a b d hab hbd
      exact decide_eq_true ((of_decide_eq_true hab).trans (of_decide_eq_true hbd))
    · intro a b
      simpa using le_total a.1 b.1
  have hdistinct : c.rows.Pairwise fun a b => a.1 ≠ b.1 := by
    refine (h.perm_rows.pairwise_iff fun hab => Ne.symm hab).2 ?_
    refine List.pairwise_map.2 (List.pairwise_map.2 (h.structures_agree.distinct.imp ?_))
    intro a b hab hsame
    rw [hshown a.key b.key hsame] at hab
    cases hab
  refine (hsorted.and hdistinct).imp ?_
  rintro a b ⟨hle, hne⟩
  exact lt_of_le_of_ne (of_decide_eq_true hle) hne

theorem Reachable.rows_eq {c d : Cache κ ν} (h : c.Reachable) (h' : d.Reachable)
    (hshown : ∀ a b : κ, Shown.shown a = Shown.shown b → (a == b) = true)
    (htexts : ∀ pair, pair ∈ c.texts ↔ pair ∈ d.texts) : c.rows = d.rows := by
  have hirrefl : Std.Irrefl fun a b : String × String => a.1 < b.1 :=
    ⟨fun a => lt_irrefl a.1⟩
  have hantisymm : Std.Antisymm fun a b : String × String => a.1 < b.1 :=
    ⟨fun a b hab hba => absurd hba hab.asymm⟩
  refine (h.pairwise_rows hshown).eq_of_mem_iff (h'.pairwise_rows hshown) fun pair => ?_
  rw [h.perm_rows.mem_iff, h'.perm_rows.mem_iff, htexts]

/-- Caches with the same texts have the same dump, whatever their histories. -/
theorem Reachable.dump_eq {c d : Cache κ ν} (h : c.Reachable) (h' : d.Reachable)
    (hshown : ∀ a b : κ, Shown.shown a = Shown.shown b → (a == b) = true)
    (hname : c.name = d.name) (hlimit : c.limit = d.limit) (hspace : c.valueSpace = d.valueSpace)
    (htexts : ∀ pair, pair ∈ c.texts ↔ pair ∈ d.texts) : c.dump = d.dump := by
  have hused : c.used = d.used := by
    rw [h.used_eq, h'.used_eq, hspace]
  rw [dump, dump, hname, heading_congr hlimit hused, h.rows_eq h' hshown htexts]

end Cache

end BudgetCache
