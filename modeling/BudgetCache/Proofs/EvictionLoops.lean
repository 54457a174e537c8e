import BudgetCache.Proofs.Refinement

/-!
# How the loops of eviction end

A loop of eviction drops the oldest entry, turn by turn, until a condition on the budget holds. Here
its turns are a relation without fuel. While the parts of a table agree, each turn takes one entry
out of the chain and its key out of the index, so there are no more turns than entries, and the
function with fuel for as many turns ends where they do. There are two ways to end. Making room
always ends with the condition, because the limit alone has room for the value; a loop for a lower
limit runs out of entries only if the limit is negative.
-/

namespace BudgetCache

namespace Table

variable {κ ν : Type} [BEq κ] [Hashable κ]

/-- One turn of the loop: the condition does not hold, and the oldest entry is dropped. -/
inductive Turn (done : Budget → Bool) (t : Table κ ν) : Table κ ν → Prop
  | drop {slot : Nat} (hdone : done t.budget = false) (holdest : t.chain.oldest = some slot) :
    Turn done t (t.evict slot).1

/-- So many turns in a row. -/
inductive Turns (done : Budget → Bool) : Nat → Table κ ν → Table κ ν → Prop
  | refl (t : Table κ ν) : Turns done 0 t t
  | turn {n : Nat} {t t' t'' : Table κ ν} (h : Turn done t t') (hrest : Turns done n t' t'') :
    Turns done (n + 1) t t''

/-- The loop makes no further turn, because the condition holds or for want of an entry. -/
def Ends (done : Budget → Bool) (t : Table κ ν) : Prop :=
  done t.budget = true ∨ t.chain.oldest = none

/-- The oldest cell leaves the chain and its key leaves the index. The other cells stay in their
slots and in their order. -/
structure Loses (t : Table κ ν) (slot : Nat) (item : Item κ ν) (t' : Table κ ν) : Prop where
  oldest : t.chain.oldest = some slot
  live : t.chain.item? slot = some item
  vacated : t'.chain.get? slot = none
  cells : t.chain.toList.map (fun cell => (cell.1, cell.2.item)) =
    t'.chain.toList.map (fun cell => (cell.1, cell.2.item)) ++ [(slot, item)]
  keys : t.index.toList.Perm ((item.key, slot) :: t'.index.toList)

/-- Every loop of eviction in a table ends. -/
structure LoopsEnd (t : Table κ ν) : Prop where
  /-- Each turn leaves one key less, so there are at most as many turns as keys. -/
  size : ∀ done n t', Turns done n t t' → n + t'.size = t.size
  /-- Each turn takes one live cell and its key. -/
  loses : ∀ done n t' t'', Turns done n t t' → Turn done t' t'' →
    ∃ slot item, Loses t' slot item t''
  /-- The turns come to an end, and there the function ends too. -/
  ends : ∀ done, ∃ n t', Turns done n t t' ∧ Ends done t' ∧
    (evictUntil done t.chain.size t).1 = t'

/-- How room is made for a value. -/
structure MakesRoom (t : Table κ ν) (footprint : Int) : Prop where
  /-- Room is refused exactly if the limit has none. -/
  refuses : t.makeRoom? footprint = none ↔ t.limit < footprint
  /-- A refused value changes nothing but the count of refusals. -/
  unchanged : t.makeRoom? footprint = none → ∀ key value, t.insertAbsent key value footprint =
    ({ t with counters := t.counters.rejection }, [.rejected footprint t.limit])
  /-- As long as there is not enough room there is an entry to drop. -/
  guarded : footprint ≤ t.limit → ∀ n t', Turns (·.fits footprint) n t t' →
    t'.budget.fits footprint = false → t'.chain.oldest ≠ none
  /-- If room is made, it is enough, and the turns of the loop made it. -/
  enough : ∀ roomy events, t.makeRoom? footprint = some (roomy, events) →
    roomy.budget.fits footprint = true ∧ ∃ n, Turns (·.fits footprint) n t roomy

/-- How a lower limit is honoured. -/
structure Honours (t : Table κ ν) (limit : Int) : Prop where
  /-- Only under a negative limit the entries run out, and then no key is left. -/
  runsOut : ∀ n t', Turns (fun b => decide (b.used ≤ limit)) n t t' → limit < t'.used →
    t'.chain.oldest = none → limit < 0 ∧ t'.isEmpty = true
  /-- The limit is set where the turns end. -/
  lowered : limit < t.limit → ∃ n t', Turns (fun b => decide (b.used ≤ limit)) n t t' ∧
    (t'.used ≤ limit ∨ limit < 0 ∧ t'.isEmpty = true) ∧
    (t.setLimit limit).after = { t' with budget := { t'.budget with limit } }

variable [EquivBEq κ] [LawfulHashable κ]

theorem Agrees.loses {t : Table κ ν} {cells : List (Nat × Item κ ν)} {slot : Nat} {item : Item κ ν}
    (h : t.Agrees (cells ++ [(slot, item)])) : Loses t slot item (t.evict slot).1 := by
  obtain ⟨hevicted, -⟩ := h.evict
  have hoff : slot ∉ cells.map (·.1) := by simpa using h.chain.notMem_middle
  constructor
  case oldest =>
    rw [h.chain.ordered.oldest]
    simp
  case live => exact h.chain.item (slot, item) (by simp)
  case vacated => exact Chain.item?_eq_none.1 (hevicted.chain.stale slot hoff)
  case cells => rw [h.chain.toList, hevicted.chain.toList]
  case keys =>
    have hbefore := h.index_toList
    rw [List.map_append] at hbefore
    have hsingle := List.perm_append_singleton (item.key, slot)
      (cells.map fun cell => (cell.2.key, cell.1))
    exact (hbefore.trans hsingle).trans (hevicted.index_toList.symm.cons _)

omit [EquivBEq κ] [LawfulHashable κ] in
/-- The oldest slot is that of the last cell. -/
theorem Agrees.exists_of_oldest {t : Table κ ν} {cells : List (Nat × Item κ ν)} {slot : Nat}
    (h : t.Agrees cells) (holdest : t.chain.oldest = some slot) :
    ∃ rest item, cells = rest ++ [(slot, item)] := by
  rw [h.chain.ordered.oldest, List.getLast?_map] at holdest
  obtain ⟨⟨_, item⟩, hlast, rfl⟩ := Option.map_eq_some_iff.1 holdest
  obtain ⟨rest, hcells⟩ := List.getLast?_eq_some_iff.1 hlast
  exact ⟨rest, item, hcells⟩

/-- A turn takes the last cell. -/
theorem Agrees.turn {t t' : Table κ ν} {cells : List (Nat × Item κ ν)} (h : t.Agrees cells)
    {done : Budget → Bool} (hturn : Turn done t t') :
    ∃ rest slot item, cells = rest ++ [(slot, item)] ∧ t'.Agrees rest ∧
      t'.budget.limit = t.budget.limit ∧ Loses t slot item t' := by
  obtain ⟨-, holdest⟩ := hturn
  obtain ⟨rest, item, rfl⟩ := h.exists_of_oldest holdest
  obtain ⟨hevicted, -, hlimit, -⟩ := h.evict
  exact ⟨rest, _, item, rfl, hevicted, hlimit, h.loses⟩

/-- So many turns take so many cells. -/
theorem Agrees.turns {t t' : Table κ ν} {cells : List (Nat × Item κ ν)} (h : t.Agrees cells)
    {done : Budget → Bool} {n : Nat} (hturns : Turns done n t t') :
    ∃ rest gone, cells = rest ++ gone ∧ gone.length = n ∧ t'.Agrees rest ∧
      t'.budget.limit = t.budget.limit := by
  induction hturns generalizing cells with
  | refl t => exact ⟨cells, [], by simp, rfl, h, rfl⟩
  | turn hturn _ ih =>
    obtain ⟨first, slot, item, rfl, hfirst, hlimit, -⟩ := h.turn hturn
    obtain ⟨rest, gone, rfl, hlength, hrest, hlimit'⟩ := ih hfirst
    refine ⟨rest, gone ++ [(slot, item)], by simp, ?_, hrest, hlimit'.trans hlimit⟩
    rw [List.length_append, hlength]
    rfl

/-- The loop comes to an end. -/
theorem Agrees.exists_ends {t : Table κ ν} {cells : List (Nat × Item κ ν)} (h : t.Agrees cells)
    (done : Budget → Bool) : ∃ n t', Turns done n t t' ∧ Ends done t' := by
  -- from the right, since a turn takes the last cell
  induction cells using List.reverseRecOn generalizing t with
  | nil => exact ⟨0, t, .refl t, .inr h.chain.ordered.oldest⟩
  | append_singleton cells cell ih =>
    have holdest := h.loses.oldest
    cases hdone : done t.budget with
    | true => exact ⟨0, t, .refl t, .inl hdone⟩
    | false =>
      obtain ⟨n, t', hturns, hends⟩ := ih h.evict.1
      exact ⟨n + 1, t', .turn (.drop hdone holdest) hturns, hends⟩

/-! ## The function with fuel -/

omit [EquivBEq κ] [LawfulHashable κ] in
theorem evictUntil_of_ends {t : Table κ ν} {done : Budget → Bool} (h : Ends done t) (fuel : Nat) :
    Table.evictUntil done fuel t = (t, []) := by
  cases fuel with
  | zero => rfl
  | succ fuel => rcases h with hdone | hnone <;> simp [Table.evictUntil, *]

omit [EquivBEq κ] [LawfulHashable κ] in
/-- With fuel for all turns the function ends where they do. -/
theorem evictUntil_of_turns {t t' : Table κ ν} {done : Budget → Bool} {n fuel : Nat}
    (hturns : Turns done n t t') (hends : Ends done t') (hfuel : n ≤ fuel) :
    (Table.evictUntil done fuel t).1 = t' := by
  induction hturns generalizing fuel with
  | refl t => rw [evictUntil_of_ends hends]
  | turn hturn _ ih =>
    obtain ⟨hdone, holdest⟩ := hturn
    obtain ⟨fuel, rfl⟩ : ∃ k, fuel = k + 1 := ⟨fuel - 1, by omega⟩
    simpa [Table.evictUntil, hdone, holdest] using ih hends (Nat.le_of_succ_le_succ hfuel)

/-! ## The two ways to end -/

omit [EquivBEq κ] [LawfulHashable κ] in
/-- Without an entry nothing is in use. -/
theorem Agrees.used_of_oldest_none {t : Table κ ν} {cells : List (Nat × Item κ ν)}
    (h : t.Agrees cells) (holdest : t.chain.oldest = none) :
    t.budget.used = 0 ∧ t.isEmpty = true := by
  rw [h.chain.ordered.oldest, List.getLast?_eq_none_iff, List.map_eq_nil_iff] at holdest
  rw [h.isEmpty, h.used, holdest]
  exact ⟨rfl, rfl⟩

variable [Footprint ν]

theorem Sound.turns_le {t t' : Table κ ν} (h : t.Sound) {done : Budget → Bool} {n : Nat}
    (hturns : Turns done n t t') : n ≤ t.chain.size := by
  obtain ⟨cells, hagrees, -⟩ := h
  obtain ⟨rest, gone, rfl, hlength, -⟩ := hagrees.turns hturns
  rw [hagrees.chain.size, List.length_append, hlength]
  exact Nat.le_add_left n rest.length

/-- The loop that makes room has made it when no entry is left to drop. -/
theorem Sound.fits_of_turns {t t' : Table κ ν} (h : t.Sound) {footprint : Int}
    (hle : footprint ≤ t.limit) {n : Nat} (hturns : Turns (·.fits footprint) n t t')
    (hnone : t'.chain.oldest = none) : t'.budget.fits footprint = true := by
  obtain ⟨cells, hagrees, -⟩ := h
  obtain ⟨rest, gone, -, -, hrest, hlimit⟩ := hagrees.turns hturns
  obtain ⟨hused, -⟩ := hrest.used_of_oldest_none hnone
  rw [Budget.fits, hused, hlimit, Int.zero_add]
  exact decide_eq_true hle

/-- The loop for a lower limit runs out of entries only if the limit is negative. -/
theorem Sound.neg_of_turns {t t' : Table κ ν} (h : t.Sound) {limit : Int} {n : Nat}
    (hturns : Turns (fun b => decide (b.used ≤ limit)) n t t') (hover : limit < t'.used)
    (hnone : t'.chain.oldest = none) : limit < 0 ∧ t'.isEmpty = true := by
  obtain ⟨cells, hagrees, -⟩ := h
  obtain ⟨rest, gone, -, -, hrest, -⟩ := hagrees.turns hturns
  obtain ⟨hused, hempty⟩ := hrest.used_of_oldest_none hnone
  have hzero : t'.used = 0 := hused
  exact ⟨by omega, hempty⟩

theorem Sound.loopsEnd {t : Table κ ν} (h : t.Sound) : t.LoopsEnd := by
  obtain ⟨cells, hagrees, -⟩ := id h
  constructor
  case size =>
    intro done n t' hturns
    obtain ⟨rest, gone, rfl, hlength, hrest, -⟩ := hagrees.turns hturns
    have hsize : t.size = (rest ++ gone).length := hagrees.size
    have hsize' : t'.size = rest.length := hrest.size
    rw [hsize, hsize', List.length_append, hlength, Nat.add_comm]
  case loses =>
    intro done n t' t'' hturns hturn
    obtain ⟨rest, gone, -, -, hrest, -⟩ := hagrees.turns hturns
    obtain ⟨-, slot, item, -, -, -, hloses⟩ := hrest.turn hturn
    exact ⟨slot, item, hloses⟩
  case ends =>
    intro done
    obtain ⟨n, t', hturns, hends⟩ := hagrees.exists_ends done
    exact ⟨n, t', hturns, hends, evictUntil_of_turns hturns hends (h.turns_le hturns)⟩

theorem Sound.makesRoom {t : Table κ ν} (h : t.Sound) (footprint : Int) :
    t.MakesRoom footprint := by
  have hrefuses : t.makeRoom? footprint = none ↔ t.limit < footprint := by
    refine ⟨fun hnone => ?_, h.makeRoom?_eq_none⟩
    obtain ⟨cells, hagrees, hfair⟩ := h
    by_contra hle
    obtain ⟨roomy, events, -, hroom, -⟩ := hagrees.makeRoom? hfair (Int.not_lt.1 hle)
    rw [hnone] at hroom
    cases hroom
  constructor
  case refuses => exact hrefuses
  case unchanged =>
    intro hnone key value
    rw [insertAbsent, hnone]
  case guarded =>
    intro hle n t' hturns hfits hnone
    rw [h.fits_of_turns hle hturns hnone] at hfits
    cases hfits
  case enough =>
    intro roomy events hroom
    have hle : footprint ≤ t.limit := by
      by_contra hlarge
      rw [hrefuses.2 (Int.not_le.1 hlarge)] at hroom
      cases hroom
    unfold makeRoom? at hroom
    split at hroom
    · next hfits =>
      cases hroom
      exact ⟨hfits, 0, .refl t⟩
    · split at hroom
      · cases hroom
      · obtain ⟨n, t', hturns, hends, hloop⟩ := h.loopsEnd.ends (·.fits footprint)
        have hroomy : roomy = t' := by rw [← hloop, Option.some.inj hroom]
        rw [hroomy]
        exact ⟨hends.elim id (h.fits_of_turns hle hturns), n, hturns⟩

theorem Sound.honours {t : Table κ ν} (h : t.Sound) (limit : Int) : t.Honours limit := by
  constructor
  case runsOut => exact fun n t' hturns hover hnone => h.neg_of_turns hturns hover hnone
  case lowered =>
    intro hlt
    obtain ⟨n, t', hturns, hends, hloop⟩ := h.loopsEnd.ends fun b => decide (b.used ≤ limit)
    refine ⟨n, t', hturns, ?_, ?_⟩
    · by_cases hover : limit < t'.used
      · have hnone := hends.resolve_left (by simpa [Table.used] using hover)
        exact .inr (h.neg_of_turns hturns hover hnone)
      · exact .inl (Int.not_lt.1 hover)
    · rw [Table.setLimit, if_pos hlt, ← hloop]

end Table

end BudgetCache
