import BudgetCache.Proofs.Evictions
import BudgetCache.Proofs.Reachable
import BudgetCache.Proofs.Recall
import BudgetCache.Script.Artifact

/-!
# Which instance of a key is stored

Keys that are equal may still be told apart, and an entry keeps the key that it was created with. A
value put under a present key goes into the entry that is there if it fits in the place of the old
one, and the key handed in is forgotten. If it does not fit, the entry is dropped and a new one is
made with the key handed in. So a put renews the stored key exactly if it is not an update in place,
and nothing else does: the stored key of a present key is the one that renewed it last.
-/

namespace BudgetCache

namespace Reference

variable {κ ν : Type} [BEq κ]

theorem Distinct.find?_eq [EquivBEq κ] {items : List (Item κ ν)} (h : Distinct items)
    {item : Item κ ν} (hitem : item ∈ items) {key : κ} (hkey : (item.key == key) = true) :
    items.find? (·.key == key) = some item := by
  obtain ⟨xs, ys, rfl⟩ := List.append_of_mem hitem
  have hxs : xs.find? (·.key == key) = none := by
    refine List.find?_eq_none.2 ?_
    intro other hother
    simp [h.middle hkey other (List.mem_append_left ys hother)]
  simp [List.find?_append, hxs, hkey]

/-- Unless something was put under its key, an item has the key of an item that was there before. -/
theorem Step.exists_key {r : Reference κ ν} {op : Operation κ ν}
    {o : Outcome (Reference κ ν) (Reply κ ν)} {touched : Option (Item κ ν)}
    {kept : List (Item κ ν)} (hstep : r.Step op o touched kept) {item : Item κ ν}
    (hitem : item ∈ o.after.items) (hputs : op.puts? item.key = none) :
    ∃ old ∈ r.items, old.key = item.key := by
  rw [hstep.items] at hitem
  rcases List.mem_append.1 hitem with hmem | hmem
  · rcases hstep.origin item (Option.mem_toList.1 hmem) with hput | ⟨-, -, old, hold, hkey, -⟩
    · rw [hputs] at hput
      cases hput
    · exact ⟨old, hold, hkey⟩
  · exact ⟨item, hstep.sublist.subset hmem, rfl⟩

end Reference

namespace Table

variable {κ ν : Type} [BEq κ] [Hashable κ] [Footprint ν]

/-- The key handed in with a put that is no update in place. -/
def renews? (t : Table κ ν) (key : κ) : Operation κ ν → Option κ
  | .put other value => if other == key && !t.updatesInPlace other value then some other else none
  | _ => none

/-- The last key with which a history renews `key`. -/
def lastRenewal? (t : Table κ ν) (key : κ) : List (Operation κ ν) → Option κ
  | [] => none
  | op :: ops => ((t.apply op).after.lastRenewal? key ops).or (t.renews? key op)

variable {t : Table κ ν}

theorem renews?_put_of_updates {other : κ} {value : ν} (h : t.updatesInPlace other value = true)
    (key : κ) : t.renews? key (.put other value) = none := by
  simp [renews?, h]

theorem renews?_put_of_ne {other key : κ} (h : (other == key) = false) (value : ν) :
    t.renews? key (.put other value) = none := by
  simp [renews?, h]

theorem renews?_put_of_not_updates {other key : κ} {value : ν} (hkey : (other == key) = true)
    (h : t.updatesInPlace other value = false) : t.renews? key (.put other value) = some other := by
  simp [renews?, hkey, h]

variable [EquivBEq κ]

theorem renews?_congr {a b : κ} (h : (a == b) = true) (op : Operation κ ν) :
    t.renews? a op = t.renews? b op := by
  cases op with
  | put other value => simp only [renews?, BEq.congr_right h]
  | _ => rfl

/-! ## Where stored keys come from -/

theorem Sound.key_put (h : t.Sound) (other : κ) (value : ν) {item : Item κ ν}
    (hitem : item ∈ (t.view.put other value).after.items) :
    t.renews? item.key (.put other value) = some item.key ∨
      t.renews? item.key (.put other value) = none ∧ ∃ old ∈ t.view.items, old.key = item.key := by
  have hothers : item ∈ Reference.others other t.view.items →
      t.renews? item.key (.put other value) = none ∧
        ∃ old ∈ t.view.items, old.key = item.key := by
    intro hmem
    obtain ⟨hold, hne⟩ := Reference.mem_others.1 hmem
    exact ⟨renews?_put_of_ne (BEq.symm_false hne) value, item, hold, rfl⟩
  by_cases hlarge : t.view.limit < spaceOf value
  -- a refused value leaves the other items, and the key is gone
  · rw [h.wellFormed.put_of_lt other hlarge] at hitem
    right
    exact hothers hitem
  · have hsmall : spaceOf value ≤ (t.view.without other).limit := Int.not_lt.1 hlarge
    have hnonneg := h.wellFormed.without_nonneg other
    cases hplace : t.updatesInPlace other value with
    | true =>
      right
      refine ⟨renews?_put_of_updates hplace item.key, ?_⟩
      rw [h.updatesInPlace] at hplace
      obtain ⟨old, hfind, hput⟩ := Reference.put_of_updates hplace
      rw [hput] at hitem
      rcases List.mem_cons.1 hitem with rfl | hmem
      · exact ⟨old, List.mem_of_find?_eq_some hfind, rfl⟩
      · exact (hothers hmem).2
    | false =>
      have hnew := renews?_put_of_not_updates (t := t) (BEq.refl other) hplace
      rw [h.updatesInPlace] at hplace
      rw [Reference.put_of_not_updates hplace, Reference.insertAbsent_of_le hsmall hnonneg] at hitem
      rcases List.mem_cons.1 hitem with rfl | hmem
      · left
        exact hnew
      · right
        exact hothers ((Reference.fitting_prefix_items _ _).subset hmem)

variable [LawfulHashable κ]

/-- The key of an item is the one that renewed it in this step, or it was there before. -/
theorem Sound.key_apply (h : t.Sound) (op : Operation κ ν) {item : Item κ ν}
    (hitem : item ∈ (t.apply op).after.view.items) :
    t.renews? item.key op = some item.key ∨
      t.renews? item.key op = none ∧ ∃ old ∈ t.view.items, old.key = item.key := by
  rw [(h.apply op).view] at hitem
  obtain ⟨touched, kept, hstep⟩ := h.wellFormed.exists_step op
  cases op with
  | put other value => exact h.key_put other value hitem
  | _ => exact .inr ⟨rfl, hstep.exists_key hitem rfl⟩

theorem Sound.storedKey_of_mem (h : t.Sound) {item : Item κ ν} (hitem : item ∈ t.view.items)
    {key : κ} (hkey : (item.key == key) = true) :
    t.contains key = true ∧ t.storedKey key = item.key := by
  have hfind : t.view.find? key = some item := h.wellFormed.distinct.find?_eq hitem hkey
  rw [h.contains, h.storedKey, Reference.contains, Reference.storedKey, hfind]
  exact ⟨rfl, rfl⟩

/-! ## Steps and histories -/

/-- A key that is present after a step was renewed by the step, or it was present before and is
stored by the same instance. -/
theorem Sound.storedKey_apply (h : t.Sound) (op : Operation κ ν) {key : κ}
    (hafter : (t.apply op).after.contains key = true) :
    t.renews? key op = some ((t.apply op).after.storedKey key) ∨
      t.renews? key op = none ∧ t.contains key = true ∧
        (t.apply op).after.storedKey key = t.storedKey key := by
  have hsound := (h.apply op).sound
  obtain ⟨entry, -, hitem, hkey⟩ := hsound.exists_of_contains hafter
  obtain ⟨-, hstored⟩ := hsound.storedKey_of_mem hitem hkey
  rw [hstored, ← renews?_congr hkey]
  rcases h.key_apply op hitem with hrenewed | ⟨hnone, old, hold, heq⟩
  · exact .inl hrenewed
  · have holdKey : (old.key == key) = true := by
      rw [heq]
      exact hkey
    obtain ⟨hbefore, hsame⟩ := h.storedKey_of_mem hold holdKey
    exact .inr ⟨hnone, hbefore, heq.symm.trans hsame.symm⟩

theorem Sound.storedKey_run (h : t.Sound) (ops : List (Operation κ ν)) {key : κ}
    (hafter : (t.run ops).after.contains key = true) :
    (t.run ops).after.storedKey key = (t.lastRenewal? key ops).getD (t.storedKey key) ∧
      (t.lastRenewal? key ops = none → t.contains key = true) := by
  -- the last renewal is sought in the rest of the history before the first step is asked
  induction ops generalizing t with
  | nil => exact ⟨rfl, fun _ => hafter⟩
  | cons op ops ih =>
    obtain ⟨hstored, hpresent⟩ := ih (h.apply op).sound hafter
    unfold lastRenewal?
    cases hlast : (t.apply op).after.lastRenewal? key ops with
    | some key' =>
      rw [hlast] at hstored
      exact ⟨hstored, fun hnone => by cases hnone⟩
    | none =>
      rw [hlast] at hstored
      rcases h.storedKey_apply op (hpresent hlast) with hrenewed | ⟨hnone, hbefore, hsame⟩
      · rw [hrenewed]
        exact ⟨hstored, fun hnone => by cases hnone⟩
      · rw [hnone]
        exact ⟨hstored.trans hsame, fun _ => hbefore⟩

/-- A key met in the table is the stored instance of itself. -/
theorem Sound.storedKey_of_mem_keys (h : t.Sound) {stored key : κ} (hstored : stored ∈ t.keys)
    (hkey : (stored == key) = true) : t.storedKey key = stored := by
  obtain ⟨pair, hpair, rfl⟩ := List.mem_map.1 hstored
  have hmem := h.showsAs.toList.mem_iff.1 hpair
  obtain ⟨item, hitem, rfl⟩ := List.mem_map.1 hmem
  exact (h.storedKey_of_mem hitem hkey).2

theorem Sound.storedKey_mem_keys (h : t.Sound) {key : κ} (hkey : t.contains key = true) :
    t.storedKey key ∈ t.keys := by
  obtain ⟨entry, -, hitem, hsame⟩ := h.exists_of_contains hkey
  obtain ⟨-, hstored⟩ := h.storedKey_of_mem hitem hsame
  rw [hstored]
  have hpair : (entry.item.key, entry.item.value) ∈ t.toList :=
    h.showsAs.toList.mem_iff.2 (List.mem_map_of_mem hitem)
  exact List.mem_map_of_mem hpair

theorem Sound.storedKey_of_oldestKey (h : t.Sound) {stored key : κ}
    (holdest : t.oldestKey? = some stored) (hkey : (stored == key) = true) :
    t.storedKey key = stored := by
  rw [h.showsAs.oldestKey] at holdest
  obtain ⟨item, hitem, rfl⟩ := Option.map_eq_some_iff.1 holdest
  exact (h.storedKey_of_mem (List.mem_of_getLast? hitem) hkey).2

end Table

namespace Cache

variable {κ ν : Type} [BEq κ] [Hashable κ] [Footprint ν] [EquivBEq κ] [LawfulHashable κ]

/-- A put of an equal key, after which the key is still there, leaves the stored instance if it is
an update in place, and stores the instance handed in if not. After a history the stored instance is
the one that renewed the key last, or the one stored at the beginning. All questions that report a
key report this instance. -/
theorem Reachable.storedKey_by_renewal {c : Cache κ ν} (h : c.Reachable) (key : κ) :
    (∀ key' value, (key' == key) = true →
        (c.apply (.put key' value)).after.contains key = true →
        (c.apply (.put key' value)).after.storedKey key =
          if c.updatesInPlace key' value then c.storedKey key else key') ∧
      ∀ ops, (c.run ops).after.contains key = true →
        (c.run ops).after.storedKey key = (c.lastRenewal? key ops).getD (c.storedKey key) ∧
          (c.run ops).after.storedKey key ∈ (c.run ops).after.keys ∧
          (∀ stored ∈ (c.run ops).after.keys, (stored == key) = true →
            (c.run ops).after.storedKey key = stored) ∧
          ∀ stored, (c.run ops).after.oldestKey? = some stored → (stored == key) = true →
            (c.run ops).after.storedKey key = stored := by
  have hsound := h.ready.sound
  refine ⟨?_, ?_⟩
  · intro key' value hkey hafter
    show (c.toTable.apply (.put key' value)).after.storedKey key = _
    have hstep := hsound.storedKey_apply (.put key' value) hafter
    cases hplace : c.toTable.updatesInPlace key' value with
    | true =>
      rw [Table.renews?_put_of_updates hplace] at hstep
      rcases hstep with hrenewed | ⟨-, -, hsame⟩
      · cases hrenewed
      · exact hsame
    | false =>
      rw [Table.renews?_put_of_not_updates hkey hplace] at hstep
      rcases hstep with hrenewed | ⟨hnone, -⟩
      · exact (Option.some.inj hrenewed).symm
      · cases hnone
  · intro ops hafter
    rw [run_eq_onTable] at hafter ⊢
    have hrun := (hsound.run ops).sound
    exact ⟨(hsound.storedKey_run ops hafter).1, hrun.storedKey_mem_keys hafter,
      fun stored hstored => hrun.storedKey_of_mem_keys hstored,
      fun stored holdest => hrun.storedKey_of_oldestKey holdest⟩

end Cache

/-! ## A stored key is renewed -/

/-- A number with a mark. The mark does not count when keys are compared. -/
structure Marked where
  number : Nat
  mark : Nat

namespace Marked

instance : BEq Marked where
  beq a b := a.number == b.number

instance : Hashable Marked where
  hash a := hash a.number

instance : EquivBEq Marked where
  rfl := BEq.rfl (α := Nat)
  symm := BEq.symm (α := Nat)
  trans := BEq.trans (α := Nat)

instance : LawfulHashable Marked where
  hash_eq a b h := by
    have hnumber : a.number = b.number := eq_of_beq h
    exact congrArg (hash (α := Nat)) hnumber

end Marked

namespace Cache

/-- The third value under the first key does not fit in the place of the second. -/
theorem storedKey_by_renewal_twice :
    let c : Cache Marked Artifact := empty "demo" 3
    let ops : List (Operation Marked Artifact) := [.put ⟨1, 0⟩ ⟨"a", 1⟩, .put ⟨1, 1⟩ ⟨"b", 1⟩,
      .put ⟨2, 0⟩ ⟨"c", 1⟩, .put ⟨1, 2⟩ ⟨"d", 3⟩]
    (c.run (ops.take 3)).after.storedKey ⟨1, 5⟩ = ⟨1, 0⟩ ∧
      (c.run ops).after.storedKey ⟨1, 5⟩ = ⟨1, 2⟩ := by
  intro c ops
  have hempty : c.Reachable := .empty "demo" 3
  obtain ⟨-, hrun⟩ := hempty.storedKey_by_renewal ⟨1, 5⟩
  obtain ⟨hthree, -⟩ := hrun (ops.take 3) (by cbv)
  obtain ⟨hfour, -⟩ := hrun ops (by cbv)
  exact ⟨hthree.trans (by cbv), hfour.trans (by cbv)⟩

/-- A put of an equal key may change the stored instance of a key that is present before and
after. -/
theorem not_storedKey_put_eq :
    ¬∀ (c : Cache Marked Artifact) (key key' : Marked) (value : Artifact), c.Reachable →
      (key' == key) = true → c.contains key = true →
      (c.apply (.put key' value)).after.contains key = true →
      (c.apply (.put key' value)).after.storedKey key = c.storedKey key := by
  intro hkept
  let c : Cache Marked Artifact := (((empty "demo" 2).apply (.put ⟨1, 0⟩ ⟨"a", 1⟩)).after.apply
    (.put ⟨2, 0⟩ ⟨"b", 1⟩)).after
  have hempty : (empty "demo" 2 : Cache Marked Artifact).Reachable := .empty "demo" 2
  have hreachable : c.Reachable := (hempty.apply (.put ⟨1, 0⟩ ⟨"a", 1⟩)).apply
    (.put ⟨2, 0⟩ ⟨"b", 1⟩)
  have hsame := hkept c ⟨1, 0⟩ ⟨1, 1⟩ ⟨"c", 2⟩ hreachable (by cbv) (by cbv) (by cbv)
  have hold : c.storedKey ⟨1, 0⟩ = ⟨1, 0⟩ := by cbv
  have hnew : (c.apply (.put ⟨1, 1⟩ ⟨"c", 2⟩)).after.storedKey ⟨1, 0⟩ = ⟨1, 1⟩ := by cbv
  rw [hold, hnew] at hsame
  cases hsame

end Cache

end BudgetCache
