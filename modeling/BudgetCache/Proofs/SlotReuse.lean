import BudgetCache.Proofs.ChainShape
import Mathlib

/-!
# Slots are reused

A new entry gets the slot that was vacated last, or a new slot at the end of the arena if none is
vacant. In both cases the slot was not in use. It then belongs to the entry until it is removed or
the chain is cleared: whatever is done to other slots, and whatever entries come and go there, the
slot keeps the key and what was written to it last. Since a new slot is made only when all are in
use, the arena is as large as the number of entries was at its highest since the last clear.
-/

namespace BudgetCache

namespace Chain

variable {κ ν : Type}

namespace Action

/-- Whether the operation vacates the slot. -/
def vacates (slot : Nat) : Action κ ν → Bool
  | .remove other => other == slot
  | .clear => true
  | _ => false

/-- The value and footprint in a slot after an operation that does not vacate it. -/
def rewrite (slot : Nat) (content : ν × Int) : Action κ ν → ν × Int
  | .replace other value footprint => if other = slot then (value, footprint) else content
  | _ => content

end Action

/-- The slots in use. -/
def liveSlots (c : Chain κ ν) : List Nat :=
  (List.range c.slots.size).filter fun slot => (c.get? slot).isSome

/-- The numbers of slots in use at the moments since the chain, which was empty at first, was last
cleared. -/
def liveSinceClear (actions : List (Action κ ν)) : Set Nat :=
  { n | ∃ earlier later, actions = earlier ++ later ∧ Action.clear ∉ later ∧
    n = ((empty : Chain κ ν).actAll earlier).2.liveSlots.length }

theorem actAll_append (c : Chain κ ν) (actions later : List (Action κ ν)) :
    (c.actAll (actions ++ later)).2 = ((c.actAll actions).2.actAll later).2 := by
  induction actions generalizing c with
  | nil => rfl
  | cons action actions ih => exact ih (c.act action).2

end Chain

/-! ## What stays in a slot -/

namespace Line

variable {κ ν : Type}

theorem mem_middle {xs ys : List (Nat × Item κ ν)} {other slot : Nat} {found item : Item κ ν}
    (hnodup : ((xs ++ (other, found) :: ys).map (·.1)).Nodup)
    (hmem : (slot, item) ∈ xs ++ (other, found) :: ys) :
    (slot = other ∧ item = found) ∨ (other ≠ slot ∧ (slot, item) ∈ xs ++ ys) := by
  rw [List.map_append, List.map_cons, List.nodup_middle, ← List.map_append] at hnodup
  have hother := (List.nodup_cons.1 hnodup).1
  rw [List.mem_append, List.mem_cons, or_left_comm, ← List.mem_append, Prod.mk.injEq] at hmem
  rcases hmem with hsame | hrest
  · exact Or.inl hsame
  · refine Or.inr ⟨?_, hrest⟩
    intro heq
    rw [heq] at hother
    exact hother (List.mem_map_of_mem (f := (·.1)) hrest)

/-- An operation that does not vacate a slot leaves its item there, with its key. -/
theorem Step.keeps {l l' : Line κ ν} {action : Chain.Action κ ν} {answer : Chain.Answer κ ν}
    (h : l.Step action answer l') (hnodup : (l.cells.map (·.1)).Nodup) {slot : Nat}
    {item : Item κ ν} (hmem : (slot, item) ∈ l.cells) (hstays : action.vacates slot = false) :
    ∃ item', (slot, item') ∈ l'.cells ∧ item'.key = item.key ∧
      (item'.value, item'.footprint) = action.rewrite slot (item.value, item.footprint) := by
  cases h with
  | insert _ entry other hother => exact ⟨item, List.mem_cons_of_mem _ hmem, rfl, rfl⟩
  | touch xs ys other found clock =>
    rcases mem_middle hnodup hmem with ⟨rfl, rfl⟩ | ⟨-, hrest⟩
    · exact ⟨_, List.mem_cons_self, rfl, rfl⟩
    · exact ⟨item, List.mem_cons_of_mem _ hrest, rfl, rfl⟩
  | touch_stale _ other hother => exact ⟨item, hmem, rfl, rfl⟩
  | remove xs ys other found clock =>
    rcases mem_middle hnodup hmem with ⟨rfl, -⟩ | ⟨-, hrest⟩
    · simp [Chain.Action.vacates] at hstays
    · exact ⟨item, hrest, rfl, rfl⟩
  | remove_stale _ other hother => exact ⟨item, hmem, rfl, rfl⟩
  | replace xs ys other found clock value footprint =>
    rcases mem_middle hnodup hmem with ⟨rfl, rfl⟩ | ⟨hne, hrest⟩
    · refine ⟨{ item with value, footprint }, by simp, rfl, ?_⟩
      exact (if_pos rfl).symm
    · refine ⟨item, ?_, rfl, (if_neg hne).symm⟩
      rw [List.mem_append] at hrest ⊢
      rcases hrest with hfront | hback
      · exact Or.inl hfront
      · exact Or.inr (List.mem_cons_of_mem _ hback)
  | replace_stale _ other value footprint hother =>
    have hne : other ≠ slot := by
      intro heq
      rw [heq] at hother
      exact hother (List.mem_map_of_mem (f := (·.1)) hmem)
    exact ⟨item, hmem, rfl, (if_neg hne).symm⟩
  | clear => cases hstays

end Line

namespace Chain

variable {κ ν : Type}

/-- The item in a slot stays there as long as the slot is not vacated. -/
theorem Holds.keeps {c : Chain κ ν} {cells : List (Nat × Item κ ν)} (h : c.Holds cells) {slot : Nat}
    {item : Item κ ν} (hmem : (slot, item) ∈ cells) {actions : List (Action κ ν)}
    (hstays : ∀ action ∈ actions, action.vacates slot = false) :
    ∃ found, (c.actAll actions).2.get? slot = some found ∧ found.key = item.key ∧
      (found.value, found.footprint) =
        actions.foldl (Action.rewrite slot) (item.value, item.footprint) := by
  induction actions generalizing c cells item with
  | nil =>
    obtain ⟨found, hfound, rfl⟩ := Option.map_eq_some_iff.1 (h.item _ hmem)
    exact ⟨found, hfound, rfl, rfl⟩
  | cons action actions ih =>
    obtain ⟨next, hnext, hstep⟩ := h.act action
    obtain ⟨item', hmem', hkey, hcontent⟩ :=
      hstep.keeps h.ordered.nodup hmem (hstays action List.mem_cons_self)
    obtain ⟨found, hfound, hkey', hcontent'⟩ :=
      ih hnext hmem' fun other hother => hstays other (List.mem_cons_of_mem action hother)
    refine ⟨found, hfound, hkey'.trans hkey, ?_⟩
    rw [hcontent', hcontent]
    rfl

/-! ## The size of the arena -/

theorem length_liveSlots_le (c : Chain κ ν) : c.liveSlots.length ≤ c.slots.size := by
  have hle := List.length_filter_le (fun slot => (c.get? slot).isSome) (List.range c.slots.size)
  rw [List.length_range] at hle
  exact hle

theorem size_slots_attach (c : Chain κ ν) (slot : Nat) :
    (c.attach slot).slots.size = c.slots.size :=
  (sameArena_attach c slot).slots

theorem size_slots_insert (c : Chain κ ν) (entry : Entry κ ν) :
    (c.insert entry).2.slots.size =
      if c.vacant = [] then c.slots.size + 1 else c.slots.size := by
  unfold insert
  split
  · next slot vacant hvacant =>
    rw [if_neg (by simp [hvacant])]
    exact (size_slots_attach _ slot).trans (by simp [fill])
  · next hvacant =>
    rw [if_pos hvacant]
    exact (size_slots_attach _ c.slots.size).trans (by simp)

theorem size_slots_remove (c : Chain κ ν) (slot : Nat) :
    (c.remove slot).2.slots.size = c.slots.size := by
  unfold remove
  split
  · rfl
  · have hdetach := (sameArena_detach c slot).slots
    simpa [fill] using hdetach

theorem size_slots_touch (c : Chain κ ν) (slot : Nat) :
    (c.touch slot).slots.size = c.slots.size := by
  unfold touch
  split
  · exact size_slots_modify c slot _
  · exact (size_slots_attach _ slot).trans (sameArena_detach c slot).slots

/-- Without vacant slots all slots are in use. -/
theorem Holds.size_of_vacant_nil {c : Chain κ ν} {cells : List (Nat × Item κ ν)} (h : c.Holds cells)
    (hvacant : c.vacant = []) : c.size = c.slots.size := by
  have hlive : (List.range c.slots.size).filter (fun slot => (c.get? slot).isSome) =
      List.range c.slots.size := by
    refine List.filter_eq_self.2 ?_
    intro slot hslot
    by_contra hstale
    have hmem : slot ∈ c.vacant := by
      rw [h.mem_vacant, item?_eq_none]
      exact ⟨List.mem_range.1 hslot, by simpa using hstale⟩
    rw [hvacant] at hmem
    exact List.not_mem_nil hmem
  rw [h.size_eq_live, hlive, List.length_range]

/-- Short of a clear the arena never shrinks, and it grows only if all its slots are then in use. -/
theorem Holds.size_slots_act {c : Chain κ ν} {cells : List (Nat × Item κ ν)} (h : c.Holds cells)
    {action : Action κ ν} (hclear : action ≠ .clear) :
    (c.act action).2.slots.size = c.slots.size ∨
      c.slots.size ≤ (c.act action).2.slots.size ∧
        (c.act action).2.slots.size = (c.act action).2.size := by
  cases action with
  | insert entry =>
    show (c.insert entry).2.slots.size = _ ∨ _ ≤ (c.insert entry).2.slots.size ∧
      (c.insert entry).2.slots.size = (c.insert entry).2.size
    rw [size_slots_insert]
    by_cases hvacant : c.vacant = []
    · have hsize := h.size_of_vacant_nil hvacant
      have hcount := h.size
      have hafter := (h.insert entry).size
      rw [List.length_cons] at hafter
      rw [if_pos hvacant]
      omega
    · rw [if_neg hvacant]
      exact Or.inl rfl
  | remove slot => exact Or.inl (size_slots_remove c slot)
  | touch slot => exact Or.inl (size_slots_touch c slot)
  | replace slot value footprint => exact Or.inl (size_slots_modify c slot _)
  | clear => exact absurd rfl hclear

theorem mem_liveSinceClear_concat {actions : List (Action κ ν)} {action : Action κ ν} {n : Nat} :
    n ∈ liveSinceClear (actions ++ [action]) ↔
      n = ((empty : Chain κ ν).actAll (actions ++ [action])).2.liveSlots.length ∨
        action ≠ .clear ∧ n ∈ liveSinceClear actions := by
  constructor
  · rintro ⟨earlier, later, hsplit, hlater, rfl⟩
    rcases List.eq_nil_or_concat' later with rfl | ⟨later, last, rfl⟩
    · rw [List.append_nil] at hsplit
      rw [hsplit]
      exact Or.inl rfl
    · rw [← List.append_assoc] at hsplit
      obtain ⟨rfl, hlast⟩ := List.append_inj' hsplit rfl
      obtain rfl : action = last := by simpa using hlast
      rw [List.mem_append, not_or, List.mem_singleton] at hlater
      exact Or.inr ⟨Ne.symm hlater.2, earlier, later, rfl, hlater.1, rfl⟩
  · rintro (rfl | ⟨hclear, earlier, later, rfl, hlater, rfl⟩)
    · exact ⟨actions ++ [action], [], by simp, List.not_mem_nil, rfl⟩
    · refine ⟨earlier, later ++ [action], by simp, ?_, rfl⟩
      rw [List.mem_append, not_or, List.mem_singleton]
      exact ⟨hlater, Ne.symm hclear⟩

/-- The arena has as many slots as were in use at once since the last clear. -/
theorem isGreatest_size_slots (actions : List (Action κ ν)) :
    IsGreatest (liveSinceClear actions) ((empty : Chain κ ν).actAll actions).2.slots.size := by
  induction actions using List.reverseRecOn with
  | nil =>
    refine ⟨⟨[], [], rfl, List.not_mem_nil, rfl⟩, ?_⟩
    rintro n ⟨earlier, later, hsplit, -, rfl⟩
    obtain ⟨rfl, -⟩ := List.append_eq_nil_iff.1 hsplit.symm
    exact Nat.le_refl 0
  | append_singleton actions action ih =>
    obtain ⟨hattained, hbound⟩ := ih
    obtain ⟨cells, hcells, -⟩ := holds_empty.actAll actions
    obtain ⟨next, hnext, -⟩ := hcells.act action
    have hlast : ((empty : Chain κ ν).actAll (actions ++ [action])).2 =
        (((empty : Chain κ ν).actAll actions).2.act action).2 := actAll_append _ actions [action]
    refine ⟨mem_liveSinceClear_concat.2 ?_, ?_⟩
    · rw [hlast]
      by_cases hclear : action = .clear
      · rw [hclear]
        exact Or.inl rfl
      · rcases hcells.size_slots_act hclear with hsame | ⟨-, hfull⟩
        · rw [hsame]
          exact Or.inr ⟨hclear, hattained⟩
        · rw [hfull]
          exact Or.inl hnext.size_eq_live
    · intro n hn
      rcases mem_liveSinceClear_concat.1 hn with rfl | ⟨hclear, hearlier⟩
      · exact length_liveSlots_le _
      · have hle := hbound hearlier
        have hsize := hcells.size_slots_act hclear
        rw [hlast]
        omega

/-- The slot of a new entry was not in use. Until it is vacated it holds the key of the entry and
what was written to it last. The arena is as large as the number of slots in use was at its highest
since the last clear, which bounds the slot that a new entry gets. -/
theorem actAll_empty_slots (actions : List (Action κ ν)) :
    let c := ((empty : Chain κ ν).actAll actions).2
    IsGreatest (liveSinceClear actions) c.slots.size ∧
      ∀ entry : Entry κ ν,
        let slot := (c.insert entry).1
        let stored := (c.insert entry).2
        c.get? slot = none ∧
          (∀ peak, IsGreatest (liveSinceClear (actions ++ [.insert entry])) peak → slot < peak) ∧
          ∀ later, (∀ action ∈ later, action.vacates slot = false) →
            ∃ found, (stored.actAll later).2.get? slot = some found ∧ found.key = entry.key ∧
              (found.value, found.footprint) =
                later.foldl (Action.rewrite slot) (entry.value, entry.footprint) := by
  intro c
  obtain ⟨cells, hcells, -⟩ := holds_empty.actAll actions
  refine ⟨isGreatest_size_slots actions, ?_⟩
  intro entry slot stored
  have hinsert : stored.Holds ((slot, { entry.item with stamp := c.clock }) :: cells) :=
    hcells.insert entry
  refine ⟨?_, ?_, ?_⟩
  · have hslot : slot ∉ cells.map (·.1) := (List.nodup_cons.1 hinsert.ordered.nodup).1
    exact item?_eq_none.1 (hcells.stale slot hslot)
  · intro peak hpeak
    have hlast : ((empty : Chain κ ν).actAll (actions ++ [.insert entry])).2 = stored :=
      actAll_append _ actions [.insert entry]
    have hsize := isGreatest_size_slots (actions ++ [.insert entry])
    rw [hpeak.unique hsize, hlast]
    exact lt_size_of_item? (hinsert.item _ List.mem_cons_self)
  · intro later hstays
    exact hinsert.keeps List.mem_cons_self hstays

/-- A vacated slot is taken again, and a third one is made when both are in use. -/
theorem actAll_empty_slots_three :
    let entry (key : Nat) (value : String) : Entry Nat String := { key, value, footprint := 1 }
    let actions : List (Action Nat String) :=
      [.insert (entry 1 "a"), .insert (entry 2 "b"), .remove 0]
    let later : List (Action Nat String) :=
      [.touch 1, .replace 0 "d" 5, .insert (entry 4 "e"), .remove 1, .remove 7]
    let c := ((empty : Chain Nat String).actAll actions).2
    let stored := (c.insert (entry 3 "c")).2
    (c.insert (entry 3 "c")).1 = 0 ∧ c.get? 0 = none ∧ c.slots.size = 2 ∧
      (stored.actAll later).2.slots.size = 3 ∧
      ∃ found, (stored.actAll later).2.get? 0 = some found ∧ found.key = 3 ∧
        (found.value, found.footprint) = ("d", 5) := by
  intro entry actions later c stored
  have hslot : (c.insert (entry 3 "c")).1 = 0 := by cbv
  obtain ⟨-, hinsert⟩ := actAll_empty_slots actions
  obtain ⟨hstale, -, hkeeps⟩ := hinsert (entry 3 "c")
  change c.get? (c.insert (entry 3 "c")).1 = none at hstale
  rw [hslot] at hstale
  have hstays : ∀ action ∈ later, action.vacates (c.insert (entry 3 "c")).1 = false := by
    rw [hslot]
    decide
  obtain ⟨found, hfound, hkey, hcontent⟩ := hkeeps later hstays
  change (stored.actAll later).2.get? (c.insert (entry 3 "c")).1 = some found at hfound
  change _ = later.foldl (Action.rewrite (c.insert (entry 3 "c")).1) ("c", 1) at hcontent
  rw [hslot] at hfound hcontent
  exact ⟨hslot, hstale, by cbv, by decide, found, hfound, hkey, hcontent⟩

end Chain

end BudgetCache
