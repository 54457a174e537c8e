import BudgetCache.Proofs.TableAgreement

/-!
# Tables refine the reference

Every operation on a table whose parts agree shows as the same operation on its view: the replies
and the events are the same, and so are the items, the limit, the clock and the counters afterwards.
The branches of an operation that are there for a slot gone stale or a key without an entry are
never taken, because the parts of the table agree again when the operation ends. A whole history
then follows the reference step by step.
-/

namespace BudgetCache

namespace Table

variable {κ ν α β : Type} [BEq κ] [Hashable κ] [Footprint ν]

/-- Every cell is charged for the value that it holds. -/
def Fair (cells : List (Nat × Item κ ν)) : Prop :=
  ∀ cell ∈ cells, cell.2.footprint = spaceOf cell.2.value

omit [BEq κ] [Hashable κ] in
theorem Fair.middle {xs ys : List (Nat × Item κ ν)} {cell : Nat × Item κ ν}
    (h : Fair (xs ++ cell :: ys)) :
    cell.2.footprint = spaceOf cell.2.value ∧ Fair (xs ++ ys) := by
  refine ⟨h cell (by simp), fun other hother => h other ?_⟩
  simp only [List.mem_append, List.mem_cons] at hother ⊢
  tauto

omit [BEq κ] [Hashable κ] in
theorem Fair.cons {cells : List (Nat × Item κ ν)} {cell : Nat × Item κ ν} (h : Fair cells)
    (hcell : cell.2.footprint = spaceOf cell.2.value) : Fair (cell :: cells) :=
  List.forall_mem_cons.2 ⟨hcell, h⟩

/-- The parts of the table agree, and every entry is charged for the value that it holds. -/
def Sound (t : Table κ ν) : Prop :=
  ∃ cells, t.Agrees cells ∧ Fair cells

/-- What comes of an operation on a table is what comes of one on the reference, as far as it
shows, and the table is sound afterwards. -/
structure Matches (o : Outcome (Table κ ν) α) (o' : Outcome (Reference κ ν) α) : Prop where
  reply : o.reply = o'.reply
  view : o.after.view = o'.after
  events : o.events = o'.events
  sound : o.after.Sound

theorem Matches.map {o : Outcome (Table κ ν) α} {o' : Outcome (Reference κ ν) α}
    (h : Matches o o') (f : α → β) : Matches (o.map f) (o'.map f) :=
  ⟨congrArg f h.reply, h.view, h.events, h.sound⟩

/-- A sound table shows as a well-formed reference. -/
theorem Sound.wellFormed {t : Table κ ν} (h : t.Sound) : t.view.WellFormed := by
  obtain ⟨cells, hagrees, hfair⟩ := h
  rw [hagrees.view_eq]
  constructor
  case distinct => exact hagrees.distinct.items
  case fair =>
    intro item hitem
    obtain ⟨cell, hcell, rfl⟩ := List.mem_map.1 hitem
    exact hfair cell hcell
  case descending => exact List.pairwise_map.2 hagrees.chain.descending
  case below_clock =>
    intro item hitem
    obtain ⟨cell, hcell, rfl⟩ := List.mem_map.1 hitem
    exact hagrees.chain.below_clock cell hcell

/-! ## Questions -/

theorem Sound.used {t : Table κ ν} (h : t.Sound) : t.used = t.view.total := by
  obtain ⟨cells, hagrees, -⟩ := h
  rw [Reference.total, hagrees.items]
  exact hagrees.used

theorem Sound.used_nonneg {t : Table κ ν} (h : t.Sound) : 0 ≤ t.budget.used := by
  have hused : t.budget.used = t.view.total := h.used
  rw [hused]
  exact Reference.spaceIn_nonneg h.wellFormed.footprint_nonneg

theorem Sound.size {t : Table κ ν} (h : t.Sound) : t.size = t.view.items.length := by
  obtain ⟨cells, hagrees, -⟩ := h
  rw [hagrees.items, List.length_map]
  exact hagrees.size

theorem Sound.find? {t : Table κ ν} (h : t.Sound) (key : κ) :
    (t.find? key).map Entry.item = t.view.find? key := by
  obtain ⟨cells, hagrees, -⟩ := h
  exact hagrees.find?_item key

theorem Sound.peek {t : Table κ ν} (h : t.Sound) (key : κ) : t.peek key = t.view.peek key := by
  rw [Table.peek, Reference.peek, ← h.find?, Option.map_map]
  rfl

theorem Sound.storedKey {t : Table κ ν} (h : t.Sound) (key : κ) :
    t.storedKey key = t.view.storedKey key := by
  rw [Table.storedKey, Reference.storedKey, ← h.find?, Option.map_map]
  rfl

/-- Walking from the oldest entry reads the items backwards. -/
theorem Sound.fromOldest {t : Table κ ν} (h : t.Sound) :
    t.chain.fromOldest.map (·.2.item) = t.view.items.reverse := by
  obtain ⟨cells, hagrees, -⟩ := h
  rw [hagrees.items, ← List.map_reverse, ← hagrees.chain.fromOldest, List.map_map]
  rfl

/-! ## Operations -/

theorem Sound.makeRoom?_eq_none {t : Table κ ν} (h : t.Sound) {footprint : Int}
    (hlt : t.budget.limit < footprint) : t.makeRoom? footprint = none := by
  have hused := h.used_nonneg
  have hfits : t.budget.fits footprint = false := by
    simp only [Budget.fits, decide_eq_false_iff_not]
    omega
  simp [Table.makeRoom?, hfits, Budget.neverFits, hlt]

variable [EquivBEq κ]

theorem Sound.get {t : Table κ ν} (h : t.Sound) (key : κ) :
    Matches (t.get key) (t.view.get key) := by
  obtain ⟨cells, hagrees, hfair⟩ := h
  cases hcell : cell? cells key with
  | none =>
    obtain ⟨hindex, hfind⟩ := hagrees.absent hcell
    simp only [Table.get, hindex, Reference.get, hfind]
    refine ⟨rfl, ?_, rfl, cells, hagrees.withCounters _, hfair⟩
    rw [(hagrees.withCounters _).view_eq, hagrees.view_eq]
  | some cell =>
    obtain ⟨slot, item⟩ := cell
    obtain ⟨hindex, hfind⟩ := hagrees.present hcell
    obtain ⟨hkey, xs, ys, rfl⟩ := exists_of_cell? hcell
    have htouched := hagrees.touch t.counters.hit
    obtain ⟨entry, hentry, hitem⟩ :=
      Option.map_eq_some_iff.1 (htouched.chain.item _ List.mem_cons_self)
    simp only [Table.get, hindex, Reference.get, hfind]
    refine ⟨?_, ?_, rfl, _, htouched, hfair.middle.2.cons hfair.middle.1⟩
    · have hvalue : entry.value = item.value := congrArg Item.value hitem
      simp [hentry, hvalue]
    · rw [htouched.view_eq, Reference.pushFront, Reference.without, hagrees.view_eq,
        hagrees.distinct.others_middle hkey]
      simp

variable [LawfulHashable κ]

theorem sound_empty (limit : Int) : (empty limit : Table κ ν).Sound :=
  ⟨[], agrees_empty limit, by simp [Fair]⟩

theorem Sound.contains {t : Table κ ν} (h : t.Sound) (key : κ) :
    t.contains key = t.view.contains key := by
  obtain ⟨cells, hagrees, -⟩ := h
  rw [Table.contains, Reference.contains, hagrees.find?, Option.isSome_map,
    Std.HashMap.contains_eq_isSome_getElem?, hagrees.slot, Option.isSome_map]

/-- Room is made unless the footprint is larger than the limit, and by popping items. -/
theorem Agrees.makeRoom? {t : Table κ ν} {cells : List (Nat × Item κ ν)} (h : t.Agrees cells)
    (hfair : Fair cells) {footprint : Int} (hle : footprint ≤ t.budget.limit) :
    ∃ roomy events rest, t.makeRoom? footprint = some (roomy, events) ∧ roomy.Agrees rest ∧
      (∃ gone, cells = rest ++ gone) ∧
      (roomy.view, events) =
        t.view.popWhile fun total => decide (t.view.limit < total + footprint) := by
  have hlimit : t.view.limit = t.budget.limit := rfl
  have htotal : t.view.total = t.budget.used :=
    (Sound.used ⟨cells, h, hfair⟩ : t.used = t.view.total).symm
  unfold Table.makeRoom?
  split
  · next hfits =>
    have hover : decide (t.view.limit < t.view.total + footprint) = false := by
      simpa [Budget.fits, htotal, hlimit] using hfits
    exact ⟨t, [], cells, rfl, h, ⟨[], by simp⟩, (Reference.popWhile_of_not_exceeds hover).symm⟩
  · rw [if_neg (by simpa [Budget.neverFits] using hle)]
    have hdone : ∀ b : Budget, b.limit = t.budget.limit →
        b.fits footprint = !decide (t.view.limit < b.used + footprint) := by
      intro b hb
      rw [Budget.fits, hb, hlimit, ← decide_not]
      simp only [Int.not_lt]
    obtain ⟨rest, hrest, hgone, hpop⟩ :=
      h.evictUntil (fun total => decide (t.view.limit < total + footprint)) hdone
        (Nat.le_of_eq h.chain.size.symm)
    exact ⟨_, _, rest, rfl, hrest, hgone, hpop⟩

/-- A value is stored under an absent key, or refused, as on the reference. -/
theorem Agrees.insertAbsent {t : Table κ ν} {cells : List (Nat × Item κ ν)} (h : t.Agrees cells)
    (hfair : Fair cells) {key : κ} (habsent : ∀ cell ∈ cells, (cell.2.key == key) = false)
    (value : ν) :
    Matches
      { reply := value
        after := (t.insertAbsent key value (spaceOf value)).1
        events := (t.insertAbsent key value (spaceOf value)).2 }
      (t.view.insertAbsent key value (spaceOf value)) := by
  have hlimit : t.view.limit = t.budget.limit := rfl
  unfold Reference.insertAbsent
  split
  · next hlt =>
    have hnone := Sound.makeRoom?_eq_none ⟨cells, h, hfair⟩ hlt
    simp only [Table.insertAbsent, hnone]
    refine ⟨rfl, ?_, rfl, cells, h.withCounters _, hfair⟩
    rw [(h.withCounters _).view_eq, h.view_eq]
  · next hle =>
    obtain ⟨roomy, events, rest, hroom, hrest, ⟨gone, rfl⟩, hpop⟩ :=
      h.makeRoom? hfair (Int.not_lt.1 hle)
    have habsent' : ∀ cell ∈ rest, (cell.2.key == key) = false := fun cell hcell =>
      habsent cell (List.mem_append_left gone hcell)
    have hfair' : Fair rest := fun cell hcell => hfair cell (List.mem_append_left gone hcell)
    simp only [Table.insertAbsent, hroom, ← hpop]
    exact ⟨rfl, hrest.view_push habsent' value _, rfl, _, hrest.push habsent' value _,
      hfair'.cons rfl⟩

theorem Sound.put {t : Table κ ν} (h : t.Sound) (key : κ) (value : ν) :
    Matches (t.put key value) (t.view.put key value) := by
  obtain ⟨cells, hagrees, hfair⟩ := h
  cases hcell : cell? cells key with
  | none =>
    obtain ⟨hindex, hfind⟩ := hagrees.absent hcell
    have habsent := cell?_eq_none.1 hcell
    have hwithout : t.view.without key = t.view := by
      rw [Reference.without, hagrees.view_eq, others_of_absent habsent]
    simp only [Table.put, hindex, Reference.put, hfind, hwithout]
    exact hagrees.insertAbsent hfair habsent value
  | some cell =>
    obtain ⟨slot, item⟩ := cell
    obtain ⟨hindex, hfind⟩ := hagrees.present hcell
    obtain ⟨hkey, xs, ys, rfl⟩ := exists_of_cell? hcell
    obtain ⟨entry, hentry, rfl⟩ := hagrees.chain.get?_middle
    have hold : ((t.chain.get? slot).map (·.footprint)).getD 0 = entry.item.footprint := by
      rw [hentry]
      rfl
    have hwithout : t.view.without key = { t.view with items := (xs ++ ys).map (·.2) } := by
      rw [Reference.without, hagrees.view_eq, hagrees.distinct.others_middle hkey]
    have htotal : t.budget.used = t.view.total := Sound.used ⟨_, hagrees, hfair⟩
    have hlimit : t.budget.limit = t.view.limit := rfl
    simp only [Table.put, hindex, Reference.put, hfind, hwithout, hold, Budget.fitsInPlaceOf,
      decide_eq_true_eq, htotal, hlimit]
    split
    · obtain ⟨hreplaced, hview⟩ := hagrees.replaceAt value (spaceOf value)
      exact ⟨rfl, hview, rfl, _, hreplaced, hfair.middle.2.cons rfl⟩
    · obtain ⟨-, -, -, hdiscarded, hview⟩ := hagrees.discard
      rw [← hview]
      exact hdiscarded.insertAbsent hfair.middle.2 (hagrees.distinct.middle hkey) value

theorem Sound.remove {t : Table κ ν} (h : t.Sound) (key : κ) :
    Matches (t.remove key) (t.view.remove key) := by
  obtain ⟨cells, hagrees, hfair⟩ := h
  cases hcell : cell? cells key with
  | none =>
    obtain ⟨hindex, hfind⟩ := hagrees.absent hcell
    have hwithout : t.view.without key = t.view := by
      rw [Reference.without, hagrees.view_eq, others_of_absent (cell?_eq_none.1 hcell)]
    simp only [Table.remove, hindex, Reference.remove, Reference.peek, hfind, hwithout]
    exact ⟨rfl, rfl, rfl, cells, hagrees, hfair⟩
  | some cell =>
    obtain ⟨slot, item⟩ := cell
    obtain ⟨hindex, hfind⟩ := hagrees.present hcell
    obtain ⟨hkey, xs, ys, rfl⟩ := exists_of_cell? hcell
    have hwithout : t.view.without key = { t.view with items := (xs ++ ys).map (·.2) } := by
      rw [Reference.without, hagrees.view_eq, hagrees.distinct.others_middle hkey]
    obtain ⟨entry, hentry, rfl, hdiscarded, hview⟩ := hagrees.discard
    simp only [Table.remove, hindex, Reference.remove, Reference.peek, hfind, hwithout]
    refine ⟨?_, hview, rfl, _, hdiscarded, hfair.middle.2⟩
    rw [hentry]
    rfl

theorem Sound.clear {t : Table κ ν} (h : t.Sound) : Matches t.clear t.view.clear := by
  have hsize : t.size = t.view.items.length := h.size
  refine ⟨rfl, (agrees_clear t).view_eq, ?_, [], agrees_clear t, by simp [Fair]⟩
  simp [Table.clear, Reference.clear, hsize]

theorem Sound.setLimit {t : Table κ ν} (h : t.Sound) (limit : Int) :
    Matches (t.setLimit limit) (t.view.setLimit limit) := by
  obtain ⟨cells, hagrees, hfair⟩ := h
  have hlimit : t.view.limit = t.limit := rfl
  unfold Table.setLimit Reference.setLimit
  rw [hlimit]
  split
  · next hlt =>
    have hdone : ∀ b : Budget, b.limit = t.budget.limit →
        decide (b.used ≤ limit) = !decide (limit < b.used) := by
      intro b _
      rw [← decide_not]
      simp only [Int.not_lt]
    obtain ⟨rest, hrest, ⟨gone, rfl⟩, hpop⟩ :=
      hagrees.evictUntil (fun total => decide (limit < total)) hdone
        (Nat.le_of_eq hagrees.chain.size.symm)
    have hfair' : Fair rest := fun cell hcell => hfair cell (List.mem_append_left gone hcell)
    have hsize : t.size = t.view.items.length := Sound.size ⟨_, hagrees, hfair⟩
    have hsize' := Sound.size ⟨_, hrest, hfair'⟩
    rw [← hpop]
    refine ⟨rfl, ?_, ?_, rest, hrest.withLimit limit, hfair'⟩
    · rw [(hrest.withLimit limit).view_eq, hrest.view_eq]
    · simp only [hsize, hsize']
  · refine ⟨rfl, ?_, rfl, cells, hagrees.withLimit limit, hfair⟩
    rw [(hagrees.withLimit limit).view_eq, hagrees.view_eq]

/-- Every operation does what it does on the reference. -/
theorem Sound.apply {t : Table κ ν} (h : t.Sound) (op : Operation κ ν) :
    Matches (t.apply op) (t.view.apply op) := by
  cases op with
  | put key value => exact (h.put key value).map Reply.echo
  | get key => exact (h.get key).map Reply.found
  | peek key => exact ⟨congrArg Reply.found (h.peek key), rfl, rfl, h⟩
  | storedKey key => exact ⟨congrArg Reply.key (h.storedKey key), rfl, rfl, h⟩
  | contains key => exact ⟨congrArg Reply.answer (h.contains key), rfl, rfl, h⟩
  | remove key => exact (h.remove key).map Reply.found
  | erase key =>
    have hremove := h.remove key
    exact ⟨rfl, hremove.view, hremove.events, hremove.sound⟩
  | clear => exact h.clear.map fun _ => Reply.done
  | setLimit limit => exact (h.setLimit limit).map fun _ => Reply.done

/-- Every history does what it does on the reference. -/
theorem Sound.run {t : Table κ ν} (h : t.Sound) (ops : List (Operation κ ν)) :
    Matches (t.run ops) (t.view.run ops) := by
  induction ops generalizing t with
  | nil => exact ⟨rfl, rfl, rfl, h⟩
  | cons op ops ih =>
    obtain ⟨hreply, hview, hevents, hsound⟩ := h.apply op
    obtain ⟨hreplies, hview', hevents', hsound'⟩ := ih hsound
    rw [hview] at hreplies hview' hevents'
    refine ⟨?_, hview', ?_, hsound'⟩
    · simp only [Table.run, Reference.run, hreply, hreplies]
    · simp only [Table.run, Reference.run, hevents, hevents']

end Table

end BudgetCache
