import BudgetCache.Proofs.Fitting

/-!
# What a step does

An operation concerns a key in one of three ways: it stores a value under the key, it touches the
key, or it takes the key away. A step of the reference then leaves some of the items as they were,
none of which it concerns, and puts the item that it touches, if there is one, in front of them with
the next stamp. What a history preserves follows from this alone. Storing a value has three
outcomes, which are told apart here as well.
-/

namespace BudgetCache

/-! ## How operations concern a key -/

namespace Operation

variable {κ ν : Type} [BEq κ]

/-- The value that the operation stores under the key, or fails to store. -/
def puts? (key : κ) : Operation κ ν → Option ν
  | .put other value => if other == key then some value else none
  | _ => none

/-- Whether the operation takes the key away. -/
def drops (key : κ) : Operation κ ν → Bool
  | .remove other => other == key
  | .erase other => other == key
  | .clear => true
  | _ => false

/-- Whether the operation, given its reply, is a touch of the key: a value put under it or a lookup
that finds it. -/
def touches (key : κ) : Operation κ ν → Reply κ ν → Bool
  | .put other _, _ => other == key
  | .get other, .found (some _) => other == key
  | _, _ => false

theorem puts?_eq_none {key : κ} {op : Operation κ ν} {reply : Reply κ ν}
    (h : op.touches key reply = false) : op.puts? key = none := by
  cases op with
  | put other value => simpa [puts?, touches] using h
  | _ => rfl

section Lawful

variable [EquivBEq κ]

theorem puts?_congr {a b : κ} (h : (a == b) = true) (op : Operation κ ν) :
    op.puts? a = op.puts? b := by
  cases op with
  | put other value => simp only [puts?, BEq.congr_right h]
  | _ => rfl

theorem drops_congr {a b : κ} (h : (a == b) = true) (op : Operation κ ν) :
    op.drops a = op.drops b := by
  cases op with
  | remove other => exact BEq.congr_right h
  | erase other => exact BEq.congr_right h
  | _ => rfl

end Lawful

end Operation

namespace Reference

variable {κ ν : Type} [BEq κ] [Footprint ν]

/-! ## The outcomes of storing a value -/

/-- Whether a value fits in the place of the one that its key has. -/
def updatesInPlace (r : Reference κ ν) (key : κ) (value : ν) : Bool :=
  (r.find? key).any fun item => decide (r.total - item.footprint + spaceOf value ≤ r.limit)

theorem exists_of_updates {r : Reference κ ν} {key : κ} {value : ν}
    (h : r.updatesInPlace key value = true) :
    ∃ item, r.find? key = some item ∧ r.total - item.footprint + spaceOf value ≤ r.limit := by
  cases hfind : r.find? key with
  | none => simp [updatesInPlace, hfind] at h
  | some item => exact ⟨item, rfl, by simpa [updatesInPlace, hfind] using h⟩

theorem put_of_updates {r : Reference κ ν} {key : κ} {value : ν}
    (h : r.updatesInPlace key value = true) :
    ∃ item, r.find? key = some item ∧ r.put key value =
      { reply := value
        after := (r.without key).pushFront item.key value (spaceOf value) } := by
  obtain ⟨item, hfind, hfits⟩ := exists_of_updates h
  refine ⟨item, hfind, ?_⟩
  rw [put, hfind]
  exact if_pos hfits

theorem put_of_not_updates {r : Reference κ ν} {key : κ} {value : ν}
    (h : r.updatesInPlace key value = false) :
    r.put key value = (r.without key).insertAbsent key value (spaceOf value) := by
  unfold put
  split
  · rfl
  · next item hfind =>
    have hover : ¬r.total - item.footprint + spaceOf value ≤ r.limit := by
      simpa [updatesInPlace, hfind] using h
    exact if_neg hover

/-! ## Touched and kept items -/

/-- What a step does to the items: those in `kept` stay as they were, and the touched item, if there
is one, comes to stand in front of them. -/
structure Step (r : Reference κ ν) (op : Operation κ ν) (o : Outcome (Reference κ ν) (Reply κ ν))
    (touched : Option (Item κ ν)) (kept : List (Item κ ν)) : Prop where
  /-- There are no other items after the step. -/
  items : o.after.items = touched.toList ++ kept
  /-- The kept items were there before, in the same order. -/
  sublist : kept.Sublist r.items
  /-- The step does not concern the keys of the kept items. -/
  spared : ∀ item ∈ kept, op.touches item.key o.reply = false ∧ op.drops item.key = false
  /-- A touch takes a stamp, and nothing else does. -/
  clock : o.after.clock = r.clock + touched.toList.length
  /-- The touched item has that stamp. -/
  stamp : ∀ item ∈ touched, item.stamp = r.clock ∧ op.touches item.key o.reply = true
  /-- The touched item holds the value put, or else the one it had before. -/
  origin : ∀ item ∈ touched, op.puts? item.key = some item.value ∨
    op.puts? item.key = none ∧ op.drops item.key = false ∧
      ∃ old ∈ r.items, old.key = item.key ∧ old.value = item.value

omit [Footprint ν] in
/-- A step that touches no item. -/
theorem Step.of_kept {r : Reference κ ν} {op : Operation κ ν}
    {o : Outcome (Reference κ ν) (Reply κ ν)} (hclock : o.after.clock = r.clock)
    (hsublist : o.after.items.Sublist r.items)
    (hspared : ∀ item ∈ o.after.items,
      op.touches item.key o.reply = false ∧ op.drops item.key = false) :
    r.Step op o none o.after.items :=
  ⟨rfl, hsublist, hspared, hclock, by simp, by simp⟩

omit [Footprint ν] in
theorem find?_eq_none_iff {r : Reference κ ν} {key : κ} :
    r.find? key = none ↔ ∀ item ∈ r.items, (item.key == key) = false := by
  simp [find?]

omit [Footprint ν] in
theorem others_sublist (key : κ) (items : List (Item κ ν)) : (others key items).Sublist items :=
  List.filter_sublist

variable [EquivBEq κ]

theorem WellFormed.le_of_updates {r : Reference κ ν} (h : r.WellFormed) {key : κ} {value : ν}
    (hplace : r.updatesInPlace key value = true) : spaceOf value ≤ r.limit := by
  by_contra hlarge
  obtain ⟨item, -, hput⟩ := put_of_updates hplace
  rw [h.put_of_lt key (Int.not_le.1 hlarge)] at hput
  simp at hput

theorem WellFormed.step_put_of_lt {r : Reference κ ν} (h : r.WellFormed) (key : κ) {value : ν}
    (hlarge : r.limit < spaceOf value) :
    r.Step (.put key value) (r.apply (.put key value)) none (others key r.items) := by
  show r.Step (.put key value) ((r.put key value).map .echo) none (others key r.items)
  rw [h.put_of_lt key hlarge]
  refine .of_kept rfl (others_sublist key r.items) fun item hitem => ?_
  exact ⟨BEq.symm_false (mem_others.1 hitem).2, rfl⟩

theorem WellFormed.step_put_of_le {r : Reference κ ν} (h : r.WellFormed) (key : κ) {value : ν}
    (hsmall : spaceOf value ≤ r.limit) :
    ∃ stored, r.Step (.put key value) (r.apply (.put key value))
      (some ⟨stored, value, spaceOf value, r.clock⟩)
      (fitting (r.limit - spaceOf value) (others key r.items)) := by
  obtain ⟨stored, hstored, hput⟩ := h.put_of_le key hsmall
  have hinitial := fitting_prefix_items (r.limit - spaceOf value) (others key r.items)
  refine ⟨stored, ?_⟩
  show r.Step (.put key value) ((r.put key value).map .echo) _ _
  rw [hput]
  constructor
  case items => rfl
  case sublist => exact hinitial.sublist.trans (others_sublist key r.items)
  case spared =>
    intro item hitem
    exact ⟨BEq.symm_false (mem_others.1 (hinitial.subset hitem)).2, rfl⟩
  case clock => rfl
  case stamp =>
    rintro item ⟨⟩
    exact ⟨rfl, BEq.symm hstored⟩
  case origin =>
    rintro item ⟨⟩
    exact .inl (if_pos (BEq.symm hstored))

omit [EquivBEq κ] in
theorem WellFormed.step_setLimit {r : Reference κ ν} (h : r.WellFormed) (limit : Int) :
    r.Step (.setLimit limit) (r.apply (.setLimit limit)) none
      (if limit < r.limit then fitting limit r.items else r.items) := by
  have hitems := (items_setLimit h.footprint_nonneg limit).1
  rw [← hitems]
  refine .of_kept ?_ ?_ fun _ _ => ⟨rfl, rfl⟩
  · show (r.setLimit limit).after.clock = r.clock
    by_cases hlt : limit < r.limit
    · rw [setLimit_of_lt hlt h.footprint_nonneg]
      rfl
    · rw [Reference.setLimit, if_neg hlt]
  · show (r.setLimit limit).after.items.Sublist r.items
    rw [hitems]
    split
    · exact (fitting_prefix_items limit r.items).sublist
    · exact List.Sublist.refl _

omit [Footprint ν] in
theorem step_get (r : Reference κ ν) (key : κ) :
    ∃ touched kept, r.Step (.get key) ((r.get key).map .found) touched kept := by
  cases hfind : r.find? key with
  | none =>
    rw [get, hfind]
    exact ⟨none, _, .of_kept rfl (List.Sublist.refl _) fun _ _ => ⟨rfl, rfl⟩⟩
  | some old =>
    have hkey : (old.key == key) = true := (exists_of_find? hfind).1
    have hold : old ∈ r.items := List.mem_of_find?_eq_some hfind
    rw [get, hfind]
    refine ⟨some { old with stamp := r.clock }, others key r.items, ?_⟩
    constructor
    case items => rfl
    case sublist => exact others_sublist key r.items
    case spared =>
      intro item hitem
      exact ⟨BEq.symm_false (mem_others.1 hitem).2, rfl⟩
    case clock => rfl
    case stamp =>
      rintro item ⟨⟩
      exact ⟨rfl, BEq.symm hkey⟩
    case origin =>
      rintro item ⟨⟩
      exact .inr ⟨rfl, rfl, old, hold, rfl, rfl⟩

/-- A put is counted as refused exactly if the value is larger than the limit. -/
theorem WellFormed.rejections_put {r : Reference κ ν} (h : r.WellFormed) (key : κ) (value : ν) :
    (r.put key value).after.counters.rejections =
      r.counters.rejections + if r.limit < spaceOf value then 1 else 0 := by
  by_cases hlarge : r.limit < spaceOf value
  · rw [h.put_of_lt key hlarge, if_pos hlarge]
    rfl
  · obtain ⟨stored, -, hput⟩ := h.put_of_le key (Int.not_lt.1 hlarge)
    rw [hput, if_neg hlarge]
    rfl

/-- Every step touches at most one item and keeps some of the others. -/
theorem WellFormed.exists_step {r : Reference κ ν} (h : r.WellFormed) (op : Operation κ ν) :
    ∃ touched kept, r.Step op (r.apply op) touched kept := by
  have hunchanged : ∀ {op : Operation κ ν} {reply : Reply κ ν},
      (∀ key, op.touches key reply = false ∧ op.drops key = false) →
        ∃ touched kept, r.Step op { reply, after := r } touched kept := fun hspared =>
    ⟨none, _, .of_kept rfl (List.Sublist.refl _) fun item _ => hspared item.key⟩
  have hremoved : ∀ {op : Operation κ ν} {reply : Reply κ ν} {key : κ},
      (∀ other, (other == key) = false →
        op.touches other reply = false ∧ op.drops other = false) →
        ∃ touched kept, r.Step op { reply, after := r.without key } touched kept := fun hspared =>
    ⟨none, _, .of_kept rfl (others_sublist _ _) fun item hitem =>
      hspared item.key (mem_others.1 hitem).2⟩
  cases op with
  | put key value =>
    by_cases hlarge : r.limit < spaceOf value
    · exact ⟨none, _, h.step_put_of_lt key hlarge⟩
    · obtain ⟨stored, hstep⟩ := h.step_put_of_le key (Int.not_lt.1 hlarge)
      exact ⟨_, _, hstep⟩
  | get key => exact step_get r key
  | peek key => exact hunchanged fun _ => ⟨rfl, rfl⟩
  | storedKey key => exact hunchanged fun _ => ⟨rfl, rfl⟩
  | contains key => exact hunchanged fun _ => ⟨rfl, rfl⟩
  | remove key => exact hremoved fun _ hother => ⟨rfl, BEq.symm_false hother⟩
  | erase key => exact hremoved fun _ hother => ⟨rfl, BEq.symm_false hother⟩
  | clear => exact ⟨none, _, .of_kept rfl (List.nil_sublist _) fun item hitem => by cases hitem⟩
  | setLimit limit => exact ⟨none, _, h.step_setLimit limit⟩

end Reference

end BudgetCache
