import BudgetCache.Proofs.ChainHolds

/-!
# A chain behaves as a list

The operations on a chain may come in any order and with any slot number, stale ones included, and
an inserted entry may carry any stamp and any links. Here they are told a second time, on a plain
list of slots and items with a clock: a `Line`. A line knows nothing of links or of vacant slots;
all that it leaves open is which unused slot a new entry gets. Whatever a chain that starts empty
answers, a line can answer too, and the walks along the links of the chain read the line forwards
and backwards.
-/

namespace BudgetCache

namespace Item

variable {κ ν : Type}

/-- The entry with this item and without neighbours. -/
def entry (item : Item κ ν) : Entry κ ν :=
  { key := item.key, value := item.value, footprint := item.footprint, stamp := item.stamp }

theorem entry_eq {item : Item κ ν} {entry : Entry κ ν} (hitem : entry.item = item)
    (hlinks : entry.links = (none, none)) : entry = item.entry := by
  obtain ⟨key, value, footprint, stamp, newer, older⟩ := entry
  obtain ⟨rfl, rfl⟩ := Prod.mk.inj hlinks
  subst hitem
  rfl

end Item

namespace Chain

variable {κ ν : Type}

/-! ## Operations as data -/

/-- An operation on a chain. -/
inductive Action (κ ν : Type) where
  | insert (entry : Entry κ ν)
  | remove (slot : Nat)
  | touch (slot : Nat)
  | replace (slot : Nat) (value : ν) (footprint : Int)
  | clear

/-- What an operation on a chain tells. -/
inductive Answer (κ ν : Type) where
  | stored (slot : Nat)
  | removed (entry : Option (Entry κ ν))
  | replaced (old : Option Int)
  | done

/-- Carries out an operation. -/
def act (c : Chain κ ν) : Action κ ν → Answer κ ν × Chain κ ν
  | .insert entry =>
    let (slot, after) := c.insert entry
    (.stored slot, after)
  | .remove slot =>
    let (entry, after) := c.remove slot
    (.removed entry, after)
  | .touch slot => (.done, c.touch slot)
  | .replace slot value footprint =>
    let (old, after) := c.replace slot value footprint
    (.replaced old, after)
  | .clear => (.done, c.clear)

/-- Carries out a list of operations and lists what they tell. -/
def actAll (c : Chain κ ν) : List (Action κ ν) → List (Answer κ ν) × Chain κ ν
  | [] => ([], c)
  | action :: actions =>
    let (answer, next) := c.act action
    let (answers, last) := next.actAll actions
    (answer :: answers, last)

end Chain

/-! ## The list -/

/-- Slots with their items, the newest first, and a clock. -/
structure Line (κ ν : Type) where
  cells : List (Nat × Item κ ν) := []
  clock : Nat := 0

namespace Line

variable {κ ν : Type}

/-- What an operation does to a line, and what it tells. -/
inductive Step : Line κ ν → Chain.Action κ ν → Chain.Answer κ ν → Line κ ν → Prop
  | insert (l : Line κ ν) (entry : Entry κ ν) (slot : Nat) (hslot : slot ∉ l.cells.map (·.1)) :
    Step l (.insert entry) (.stored slot)
      ⟨(slot, ⟨entry.key, entry.value, entry.footprint, l.clock⟩) :: l.cells, l.clock + 1⟩
  | touch (xs ys : List (Nat × Item κ ν)) (slot : Nat) (item : Item κ ν) (clock : Nat) :
    Step ⟨xs ++ (slot, item) :: ys, clock⟩ (.touch slot) .done
      ⟨(slot, { item with stamp := clock }) :: (xs ++ ys), clock + 1⟩
  | touch_stale (l : Line κ ν) (slot : Nat) (hslot : slot ∉ l.cells.map (·.1)) :
    Step l (.touch slot) .done { l with clock := l.clock + 1 }
  | remove (xs ys : List (Nat × Item κ ν)) (slot : Nat) (item : Item κ ν) (clock : Nat) :
    Step ⟨xs ++ (slot, item) :: ys, clock⟩ (.remove slot) (.removed (some item.entry))
      ⟨xs ++ ys, clock⟩
  | remove_stale (l : Line κ ν) (slot : Nat) (hslot : slot ∉ l.cells.map (·.1)) :
    Step l (.remove slot) (.removed none) l
  | replace (xs ys : List (Nat × Item κ ν)) (slot : Nat) (item : Item κ ν) (clock : Nat)
    (value : ν) (footprint : Int) :
    Step ⟨xs ++ (slot, item) :: ys, clock⟩ (.replace slot value footprint)
      (.replaced (some item.footprint)) ⟨xs ++ (slot, { item with value, footprint }) :: ys, clock⟩
  | replace_stale (l : Line κ ν) (slot : Nat) (value : ν) (footprint : Int)
    (hslot : slot ∉ l.cells.map (·.1)) :
    Step l (.replace slot value footprint) (.replaced none) l
  | clear (l : Line κ ν) : Step l .clear .done { l with cells := [] }

/-- What a list of operations does to a line, and what they tell. -/
inductive Run : Line κ ν → List (Chain.Action κ ν) → List (Chain.Answer κ ν) → Line κ ν → Prop
  | nil (l : Line κ ν) : Run l [] [] l
  | cons {l l' l'' : Line κ ν} {action : Chain.Action κ ν} {answer : Chain.Answer κ ν}
    {actions : List (Chain.Action κ ν)} {answers : List (Chain.Answer κ ν)}
    (hstep : Step l action answer l') (hrun : Run l' actions answers l'') :
    Run l (action :: actions) (answer :: answers) l''

end Line

namespace Chain

variable {κ ν : Type}

/-! ## Stale slots -/

/-- A slot is stale, or it is in one of the cells. -/
theorem Holds.stale_or_live {c : Chain κ ν} {cells : List (Nat × Item κ ν)} (h : c.Holds cells)
    (slot : Nat) :
    (c.get? slot = none ∧ slot ∉ cells.map (·.1)) ∨
      ∃ xs ys item, cells = xs ++ (slot, item) :: ys := by
  by_cases hslot : slot ∈ cells.map (·.1)
  · obtain ⟨⟨_, item⟩, hcell, rfl⟩ := List.mem_map.1 hslot
    obtain ⟨xs, ys, hcells⟩ := List.append_of_mem hcell
    exact Or.inr ⟨xs, ys, item, hcells⟩
  · exact Or.inl ⟨item?_eq_none.1 (h.stale slot hslot), hslot⟩

theorem modify_of_stale {c : Chain κ ν} {slot : Nat} (h : c.get? slot = none)
    (f : Entry κ ν → Entry κ ν) : c.modify slot f = c := by
  have hslots : c.slots.modify slot (Option.map f) = c.slots := by
    refine Array.ext_getElem? fun other => ?_
    rw [Array.getElem?_modify]
    split
    · next heq =>
      subst heq
      unfold get? at h
      cases hcontent : c.slots[slot]? with
      | none => rfl
      | some content =>
        rw [hcontent] at h
        cases content with
        | none => rfl
        | some entry => cases h
    · rfl
  unfold modify
  rw [hslots]

theorem replace_of_stale {c : Chain κ ν} {slot : Nat} (h : c.get? slot = none) (value : ν)
    (footprint : Int) : c.replace slot value footprint = (none, c) := by
  unfold replace
  rw [h, modify_of_stale h]
  rfl

theorem Holds.tick {c : Chain κ ν} {cells : List (Nat × Item κ ν)} (h : c.Holds cells) :
    ({ c with clock := c.clock + 1 } : Chain κ ν).Holds cells := by
  constructor
  case ordered =>
    exact ⟨h.ordered.nodup, h.ordered.linked.congr fun _ _ => rfl, h.ordered.newest,
      h.ordered.oldest⟩
  case item => exact h.item
  case stale => exact h.stale
  case size => exact h.size
  case vacant_nodup => exact h.vacant_nodup
  case mem_vacant => exact h.mem_vacant
  case descending => exact h.descending
  case below_clock => exact fun cell hcell => Nat.lt_succ_of_lt (h.below_clock cell hcell)

/-! ## The chain follows the list -/

/-- Every operation does to the cells of a chain what it does to a line. -/
theorem Holds.act {c : Chain κ ν} {cells : List (Nat × Item κ ν)} (h : c.Holds cells)
    (action : Action κ ν) :
    ∃ cells', (c.act action).2.Holds cells' ∧
      Line.Step ⟨cells, c.clock⟩ action (c.act action).1 ⟨cells', (c.act action).2.clock⟩ := by
  cases action with
  | insert entry =>
    have hinsert := h.insert entry
    -- whatever slot the chain picks, it is not one of those in use
    have hslot := (List.nodup_cons.1 hinsert.ordered.nodup).1
    refine ⟨_, hinsert, ?_⟩
    rw [show (c.act (.insert entry)).2.clock = c.clock + 1 from clock_insert c entry]
    exact .insert ⟨cells, c.clock⟩ entry _ hslot
  | remove slot =>
    rcases h.stale_or_live slot with ⟨hstale, hslot⟩ | ⟨xs, ys, item, rfl⟩
    · have hact : c.act (.remove slot) = (.removed none, c) := by
        simp only [Chain.act, remove_of_stale hstale]
      rw [hact]
      exact ⟨cells, h, .remove_stale _ slot hslot⟩
    · obtain ⟨hremove, hclock, entry, hentry, hitem, hlinks⟩ := h.remove
      have hact : c.act (.remove slot) = (.removed (some item.entry), (c.remove slot).2) := by
        rw [← Item.entry_eq hitem hlinks, ← hentry]
        rfl
      rw [hact]
      refine ⟨xs ++ ys, hremove, ?_⟩
      rw [hclock]
      exact .remove xs ys slot item c.clock
  | touch slot =>
    rcases h.stale_or_live slot with ⟨hstale, hslot⟩ | ⟨xs, ys, item, rfl⟩
    · have hact : c.act (.touch slot) = (.done, { c with clock := c.clock + 1 }) := by
        simp only [Chain.act, h.touch_of_stale hstale]
      rw [hact]
      exact ⟨cells, h.tick, .touch_stale ⟨cells, c.clock⟩ slot hslot⟩
    · refine ⟨_, h.touch, ?_⟩
      rw [show (c.act (.touch slot)).2.clock = c.clock + 1 from clock_touch c slot]
      exact .touch xs ys slot item c.clock
  | replace slot value footprint =>
    rcases h.stale_or_live slot with ⟨hstale, hslot⟩ | ⟨xs, ys, item, rfl⟩
    · have hact : c.act (.replace slot value footprint) = (.replaced none, c) := by
        simp only [Chain.act, replace_of_stale hstale]
      rw [hact]
      exact ⟨cells, h, .replace_stale _ slot value footprint hslot⟩
    · obtain ⟨hold, hreplace⟩ := h.replace value footprint
      have hact : c.act (.replace slot value footprint) =
          (.replaced (some item.footprint), (c.replace slot value footprint).2) := by
        rw [← hold]
        rfl
      rw [hact]
      exact ⟨_, hreplace, .replace xs ys slot item c.clock value footprint⟩
  | clear => exact ⟨[], holds_clear c, .clear ⟨cells, c.clock⟩⟩

/-- A list of operations does to the cells of a chain what it does to a line. -/
theorem Holds.actAll {c : Chain κ ν} {cells : List (Nat × Item κ ν)} (h : c.Holds cells)
    (actions : List (Action κ ν)) :
    ∃ cells', (c.actAll actions).2.Holds cells' ∧
      Line.Run ⟨cells, c.clock⟩ actions (c.actAll actions).1
        ⟨cells', (c.actAll actions).2.clock⟩ := by
  induction actions generalizing c cells with
  | nil => exact ⟨cells, h, .nil _⟩
  | cons action actions ih =>
    obtain ⟨next, hnext, hstep⟩ := h.act action
    obtain ⟨last, hlast, hrun⟩ := ih hnext
    exact ⟨last, hlast, .cons hstep hrun⟩

/-- The chain is the line, as far as it shows. -/
structure Reads (c : Chain κ ν) (l : Line κ ν) : Prop where
  forwards : c.toList.map (fun cell => (cell.1, cell.2.item)) = l.cells
  backwards : c.fromOldest.map (fun cell => (cell.1, cell.2.item)) = l.cells.reverse
  slots : (l.cells.map (·.1)).Nodup
  live : ∀ slot item, c.item? slot = some item ↔ (slot, item) ∈ l.cells
  clock : c.clock = l.clock

theorem Holds.reads {c : Chain κ ν} {cells : List (Nat × Item κ ν)} (h : c.Holds cells) :
    c.Reads ⟨cells, c.clock⟩ := by
  constructor
  case forwards => exact h.toList
  case backwards => exact h.fromOldest
  case slots => exact h.ordered.nodup
  case live =>
    intro slot item
    constructor
    · intro hitem
      rcases h.stale_or_live slot with ⟨hstale, -⟩ | ⟨xs, ys, other, rfl⟩
      · rw [item?_eq_none.2 hstale] at hitem
        cases hitem
      · have hother := h.item (slot, other) (by simp)
        rw [← Option.some.inj (hother.symm.trans hitem)]
        simp
    · exact fun hcell => h.item (slot, item) hcell
  case clock => rfl

/-- After any operations on an empty chain, a line has gone through the same operations with the
same answers and is what the two walks read, and every further operation on the chain is one on the
line. An operation on a stale slot leaves the chain as it is, except that a touch uses up a
stamp. -/
theorem actAll_empty_reads (actions : List (Action κ ν)) :
    let c := ((empty : Chain κ ν).actAll actions).2
    ∃ l, Line.Run {} actions ((empty : Chain κ ν).actAll actions).1 l ∧ c.Reads l ∧
      (∀ action, ∃ l', l.Step action (c.act action).1 l' ∧ (c.act action).2.Reads l') ∧
      ∀ slot, c.get? slot = none → c.remove slot = (none, c) ∧
        c.touch slot = { c with clock := c.clock + 1 } ∧
        ∀ value footprint, c.replace slot value footprint = (none, c) := by
  intro c
  obtain ⟨cells, hcells, hrun⟩ := holds_empty.actAll actions
  refine ⟨⟨cells, c.clock⟩, hrun, hcells.reads, fun action => ?_, fun slot hstale => ?_⟩
  · obtain ⟨cells', hcells', hstep⟩ := hcells.act action
    exact ⟨_, hstep, hcells'.reads⟩
  · exact ⟨remove_of_stale hstale, hcells.touch_of_stale hstale, replace_of_stale hstale⟩

end Chain

end BudgetCache
