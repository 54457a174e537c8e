import BudgetCache.Proofs.CacheHistory
import BudgetCache.Proofs.Steps

/-!
# A cache recalls its history

What a cache holds can be read off the operations that were carried out on it. A key that is present
has the value that was put last under it, whatever has been evicted, refused or stored anew in the
meantime, and the order of the entries is that of the last touch of their keys. The invariant ties
each item to the steps of the past, and a step adds itself to the past.
-/

namespace BudgetCache

variable {κ ν : Type} [BEq κ]

/-- The value was put under the key, and nothing has been put under it nor taken it away since. -/
def LastPut (past : List (Operation κ ν)) (key : κ) (value : ν) : Prop :=
  ∃ before op later, past = before ++ op :: later ∧ op.puts? key = some value ∧
    ∀ other ∈ later, other.puts? key = none ∧ other.drops key = false

/-- The key was last touched in the step at position `i`. Steps are operations with their
replies. -/
structure LastTouch (past : List (Operation κ ν × Reply κ ν)) (key : κ) (i : Nat) : Prop where
  touched : ∃ step, past[i]? = some step ∧ step.1.touches key step.2 = true
  last : ∀ j step, i < j → past[j]? = some step → step.1.touches key step.2 = false

theorem LastPut.concat {past : List (Operation κ ν)} {key : κ} {value : ν}
    (h : LastPut past key value) {op : Operation κ ν} (hputs : op.puts? key = none)
    (hdrops : op.drops key = false) : LastPut (past ++ [op]) key value := by
  obtain ⟨before, first, later, rfl, hfirst, hlater⟩ := h
  refine ⟨before, first, later ++ [op], by simp, hfirst, fun other hother => ?_⟩
  rcases List.mem_append.1 hother with hmem | hmem
  · exact hlater other hmem
  · rw [List.mem_singleton.1 hmem]
    exact ⟨hputs, hdrops⟩

theorem LastPut.congr [EquivBEq κ] {past : List (Operation κ ν)} {a b : κ} {value : ν}
    (h : LastPut past a value) (hab : (a == b) = true) : LastPut past b value := by
  obtain ⟨before, op, later, rfl, hop, hlater⟩ := h
  refine ⟨before, op, later, rfl, Operation.puts?_congr hab op ▸ hop, fun other hother => ?_⟩
  rw [← Operation.puts?_congr hab, ← Operation.drops_congr hab]
  exact hlater other hother

theorem LastTouch.lt_length {past : List (Operation κ ν × Reply κ ν)} {key : κ} {i : Nat}
    (h : LastTouch past key i) : i < past.length := by
  obtain ⟨step, hstep, -⟩ := h.touched
  exact (List.getElem?_eq_some_iff.1 hstep).1

theorem LastTouch.concat {past : List (Operation κ ν × Reply κ ν)} {key : κ} {i : Nat}
    (h : LastTouch past key i) {step : Operation κ ν × Reply κ ν}
    (hstep : step.1.touches key step.2 = false) : LastTouch (past ++ [step]) key i := by
  obtain ⟨first, hfirst, htouches⟩ := h.touched
  refine ⟨⟨first, ?_, htouches⟩, fun j other hj hother => ?_⟩
  · rw [List.getElem?_append_left h.lt_length]
    exact hfirst
  · rcases Nat.lt_trichotomy j past.length with hlt | rfl | hgt
    · rw [List.getElem?_append_left hlt] at hother
      exact h.last j other hj hother
    · have heq : step = other := by simpa using hother
      exact heq ▸ hstep
    · rw [List.getElem?_eq_none (by simp; omega)] at hother
      cases hother

theorem lastTouch_concat_self (past : List (Operation κ ν × Reply κ ν)) {key : κ}
    {step : Operation κ ν × Reply κ ν} (hstep : step.1.touches key step.2 = true) :
    LastTouch (past ++ [step]) key past.length := by
  refine ⟨⟨step, by simp, hstep⟩, fun j other hj hother => ?_⟩
  rw [List.getElem?_eq_none (by simp; omega)] at hother
  cases hother

namespace Reference

/-- Values and order of the items as the past has them. -/
structure Recalls (past : List (Operation κ ν × Reply κ ν)) (r : Reference κ ν) : Prop where
  value : ∀ item ∈ r.items, LastPut (past.map (·.1)) item.key item.value
  touched : ∀ item ∈ r.items, ∃ i, LastTouch past item.key i
  order : r.items.Pairwise fun a b =>
    ∃ i j, j < i ∧ LastTouch past a.key i ∧ LastTouch past b.key j

theorem recalls_empty (limit : Int) : (empty limit : Reference κ ν).Recalls [] :=
  ⟨fun _ hitem => (List.not_mem_nil hitem).elim, fun _ hitem => (List.not_mem_nil hitem).elim,
    List.Pairwise.nil⟩

theorem Step.recalls {r : Reference κ ν} {op : Operation κ ν}
    {o : Outcome (Reference κ ν) (Reply κ ν)} {touched : Option (Item κ ν)}
    {kept : List (Item κ ν)} (hstep : r.Step op o touched kept)
    {past : List (Operation κ ν × Reply κ ν)} (h : Recalls past r) :
    Recalls (past ++ [(op, o.reply)]) o.after := by
  have hputs : ∀ item ∈ kept, op.puts? item.key = none := fun item hitem =>
    Operation.puts?_eq_none (hstep.spared item hitem).1
  have hkept : ∀ item ∈ kept, ∀ i, LastTouch past item.key i →
      LastTouch (past ++ [(op, o.reply)]) item.key i := fun item hitem i hi =>
    hi.concat (hstep.spared item hitem).1
  have hfront : ∀ item ∈ touched, LastTouch (past ++ [(op, o.reply)]) item.key past.length :=
    fun item hitem => lastTouch_concat_self past (hstep.stamp item hitem).2
  refine ⟨fun item hitem => ?_, fun item hitem => ?_, ?_⟩
  · rw [hstep.items] at hitem
    rw [List.map_append]
    rcases List.mem_append.1 hitem with hmem | hmem
    · rcases hstep.origin item (Option.mem_toList.1 hmem) with
        hput | ⟨hnone, hdrops, old, hold, hkey, hvalue⟩
      · exact ⟨past.map (·.1), op, [], rfl, hput, fun _ hother => (List.not_mem_nil hother).elim⟩
      · have hpast := h.value old hold
        rw [hkey, hvalue] at hpast
        exact hpast.concat hnone hdrops
    · have hpast := h.value item (hstep.sublist.subset hmem)
      exact hpast.concat (hputs item hmem) (hstep.spared item hmem).2
  · rw [hstep.items] at hitem
    rcases List.mem_append.1 hitem with hmem | hmem
    · exact ⟨_, hfront item (Option.mem_toList.1 hmem)⟩
    · obtain ⟨i, hi⟩ := h.touched item (hstep.sublist.subset hmem)
      exact ⟨i, hkept item hmem i hi⟩
  · rw [hstep.items, List.pairwise_append]
    refine ⟨?_, ?_, fun a ha b hb => ?_⟩
    · cases touched with
      | none => exact List.Pairwise.nil
      | some item => exact List.pairwise_singleton _ item
    · refine (h.order.sublist hstep.sublist).imp_of_mem ?_
      rintro a b ha hb ⟨i, j, hlt, hi, hj⟩
      exact ⟨i, j, hlt, hkept a ha i hi, hkept b hb j hj⟩
    · -- All kept items were touched before this step, which is the last of the past.
      obtain ⟨j, hj⟩ := h.touched b (hstep.sublist.subset hb)
      exact ⟨past.length, j, hj.lt_length, hfront a (Option.mem_toList.1 ha), hkept b hb j hj⟩

/-- A key stays absent until something is put under it. -/
theorem Step.find?_eq_none [EquivBEq κ] {r : Reference κ ν} {op : Operation κ ν}
    {o : Outcome (Reference κ ν) (Reply κ ν)} {touched : Option (Item κ ν)}
    {kept : List (Item κ ν)} (hstep : r.Step op o touched kept) {key : κ}
    (habsent : r.find? key = none) (hputs : op.puts? key = none) : o.after.find? key = none := by
  rw [find?_eq_none_iff] at habsent ⊢
  intro item hitem
  by_contra hsame
  rw [Bool.not_eq_false] at hsame
  have hnot : ∀ old ∈ r.items, (old.key == item.key) = false := by
    intro old hold
    rw [BEq.congr_right hsame]
    exact habsent old hold
  rw [hstep.items] at hitem
  rcases List.mem_append.1 hitem with hmem | hmem
  · rcases hstep.origin item (Option.mem_toList.1 hmem) with hput | ⟨-, -, old, hold, hkey, -⟩
    · rw [Operation.puts?_congr hsame, hputs] at hput
      cases hput
    · have hne := hnot old hold
      rw [hkey, BEq.rfl] at hne
      cases hne
  · have hne := hnot item (hstep.sublist.subset hmem)
    rw [BEq.rfl] at hne
    cases hne

end Reference

namespace Table

variable [Hashable κ] [Footprint ν] [EquivBEq κ] [LawfulHashable κ]

omit [EquivBEq κ] [LawfulHashable κ] in
theorem length_reply_run (t : Table κ ν) (ops : List (Operation κ ν)) :
    (t.run ops).reply.length = ops.length := by
  induction ops generalizing t with
  | nil => rfl
  | cons op ops ih => simp [Table.run, ih]

theorem Sound.recalls_run {t : Table κ ν} (ht : t.Sound) {past : List (Operation κ ν × Reply κ ν)}
    (h : t.view.Recalls past) (ops : List (Operation κ ν)) :
    (t.run ops).after.view.Recalls (past ++ ops.zip (t.run ops).reply) := by
  induction ops generalizing t past with
  | nil => simpa [Table.run] using h
  | cons op ops ih =>
    have hmatches := ht.apply op
    obtain ⟨touched, kept, hstep⟩ := ht.wellFormed.exists_step op
    have hrecalls := hstep.recalls h
    rw [← hmatches.view, ← hmatches.reply] at hrecalls
    have hrest := ih hmatches.sound hrecalls
    rw [List.append_assoc] at hrest
    exact hrest

theorem Sound.absent_run {t : Table κ ν} (ht : t.Sound) {key : κ} (habsent : t.contains key = false)
    {ops : List (Operation κ ν)} (hputs : ∀ op ∈ ops, op.puts? key = none) :
    (t.run ops).after.contains key = false := by
  induction ops generalizing t with
  | nil => exact habsent
  | cons op ops ih =>
    have hmatches := ht.apply op
    obtain ⟨touched, kept, hstep⟩ := ht.wellFormed.exists_step op
    rw [ht.contains, Reference.contains, Option.isSome_eq_false_iff, Option.isNone_iff_eq_none]
      at habsent
    have hnone := hstep.find?_eq_none habsent (hputs op List.mem_cons_self)
    refine ih hmatches.sound ?_ fun other hother => hputs other (List.mem_cons_of_mem op hother)
    rw [hmatches.sound.contains, hmatches.view, Reference.contains, hnone]
    rfl

theorem Sound.exists_of_contains {t : Table κ ν} (ht : t.Sound) {key : κ}
    (hkey : t.contains key = true) :
    ∃ entry, t.find? key = some entry ∧ entry.item ∈ t.view.items ∧ (entry.key == key) = true := by
  rw [ht.contains] at hkey
  obtain ⟨item, hfind⟩ := Option.isSome_iff_exists.1 hkey
  have hmem : item ∈ t.view.items := List.mem_of_find?_eq_some hfind
  have hsame : (item.key == key) = true := (Reference.exists_of_find? hfind).1
  rw [← ht.find?] at hfind
  obtain ⟨entry, hentry, rfl⟩ := Option.map_eq_some_iff.1 hfind
  exact ⟨entry, hentry, hmem, hsame⟩

/-- The present keys are those met on a walk along the chain. -/
theorem Sound.contains_iff {t : Table κ ν} (ht : t.Sound) (key : κ) :
    t.contains key = true ↔ ∃ entry ∈ t.chain.entries, (entry.key == key) = true := by
  constructor
  · intro hkey
    obtain ⟨entry, -, hmem, hsame⟩ := ht.exists_of_contains hkey
    obtain ⟨met, hmet, hitem⟩ := List.mem_map.1 hmem
    have hkeys : met.key = entry.key := congrArg Item.key hitem
    exact ⟨met, hmet, hkeys ▸ hsame⟩
  · rintro ⟨entry, hentry, hsame⟩
    by_contra habsent
    rw [ht.contains, Reference.contains, Bool.not_eq_true, Option.isSome_eq_false_iff,
      Option.isNone_iff_eq_none, Reference.find?_eq_none_iff] at habsent
    have hne : (entry.key == key) = false := habsent entry.item (List.mem_map_of_mem hentry)
    rw [hsame] at hne
    cases hne

/-- A refused value leaves its key absent. -/
theorem Sound.absent_of_refused {t : Table κ ν} (ht : t.Sound) {key : κ} {value : ν}
    (hrefused : (t.put key value).after.counters.rejections = t.counters.rejections + 1) :
    (t.put key value).after.contains key = false := by
  have hmatches := ht.put key value
  have hcount := ht.wellFormed.rejections_put key value
  rw [← hmatches.view] at hcount
  change (t.put key value).after.counters.rejections = t.counters.rejections + _ at hcount
  by_cases hlarge : t.view.limit < spaceOf value
  · rw [hmatches.sound.contains, hmatches.view, ht.wellFormed.put_of_lt key hlarge,
      Reference.contains, Option.isSome_eq_false_iff, Option.isNone_iff_eq_none,
      Reference.find?_eq_none_iff]
    intro item hitem
    exact (Reference.mem_others.1 hitem).2
  · rw [if_neg hlarge] at hcount
    omega

end Table

namespace Cache

variable [Hashable κ] [Footprint ν]

/-- Whether the value, if put under the key now, is counted as refused. -/
def Refuses (c : Cache κ ν) (key : κ) (value : ν) : Prop :=
  (c.apply (.put key value)).after.counters.rejections = c.counters.rejections + 1

variable [EquivBEq κ] [LawfulHashable κ]

/-- At every point of a history of a fresh cache, a present key has the value and the footprint of
the last put under it, and it was not taken away afterwards. If the last put under a key was
refused, the key is absent. From the newest entry to the oldest, the last touches of the keys lie
further and further back. -/
theorem run_empty_recalls (name : String) (limit : Int) (ops : List (Operation κ ν)) (n : Nat) :
    let past := ops.take n
    let c := ((empty name limit).run past).after
    let steps := past.zip ((empty name limit).run past).reply
    (∀ key, c.contains key = true → ∃ entry, c.find? key = some entry ∧
        LastPut past key entry.value ∧ entry.footprint = spaceOf entry.value) ∧
      (∀ before key value later, past = before ++ .put key value :: later →
        (∀ op ∈ later, op.puts? key = none) →
        ((empty name limit).run before).after.Refuses key value → c.contains key = false) ∧
      (∀ key, c.contains key = true ↔ ∃ entry ∈ c.chain.entries, (entry.key == key) = true) ∧
      (∀ entry ∈ c.chain.entries, ∃ i, LastTouch steps entry.key i) ∧
      c.chain.entries.Pairwise fun a b =>
        ∃ i j, j < i ∧ LastTouch steps a.key i ∧ LastTouch steps b.key j := by
  intro past c steps
  have hsound : c.toTable.Sound := by
    simp only [c, run_eq_onTable, toTable_onTable]
    exact ((Table.sound_empty limit).run past).sound
  have hrecalls : c.view.Recalls steps := by
    have hempty : (Table.empty limit : Table κ ν).view.Recalls [] := by
      rw [(Table.agrees_empty limit).view_eq]
      exact Reference.recalls_empty limit
    have hrun := (Table.sound_empty limit).recalls_run hempty past
    simp only [c, steps, run_eq_onTable, reply_onTable, toTable_onTable]
    exact hrun
  have hsteps : steps.map (·.1) = past := by
    refine List.map_fst_zip (Nat.le_of_eq ?_)
    rw [run_eq_onTable, reply_onTable]
    exact (Table.length_reply_run _ past).symm
  refine ⟨fun key hkey => ?_, ?_, hsound.contains_iff, fun entry hentry => ?_, ?_⟩
  · obtain ⟨entry, hentry, hmem, hsame⟩ := hsound.exists_of_contains hkey
    have hvalue := hrecalls.value entry.item hmem
    rw [hsteps] at hvalue
    exact ⟨entry, hentry, hvalue.congr hsame, hsound.wellFormed.fair entry.item hmem⟩
  · intro before key value later hpast hlater hrefused
    have hbefore := ((Table.sound_empty limit).run before).sound
    rw [run_eq_onTable] at hrefused
    have habsent := hbefore.absent_of_refused hrefused
    have hrest := (hbefore.put key value).sound.absent_run habsent hlater
    show ((empty name limit).run past).after.toTable.contains key = false
    rw [hpast, run_eq_onTable, toTable_onTable, Table.run_append]
    exact hrest
  · exact hrecalls.touched entry.item (List.mem_map_of_mem hentry)
  · exact List.pairwise_map.1 hrecalls.order

/-- A key has the second value put under it, and is absent once a third one is refused. -/
theorem run_empty_recalls_refused :
    let ops : List (Operation Nat String) :=
      [.put 1 "a", .put 2 "b", .put 1 "c", .setLimit 0, .put 1 "d"]
    let c (n : Nat) := ((empty "demo" 2).run (ops.take n)).after
    (∃ entry, (c 3).find? 1 = some entry ∧ LastPut (ops.take 3) 1 entry.value) ∧
      ((c 3).find? 1).map (·.value) = some "c" ∧ (c 5).contains 1 = false := by
  intro ops c
  obtain ⟨hvalue, -⟩ := run_empty_recalls "demo" 2 ops 3
  obtain ⟨-, hrefused, -⟩ := run_empty_recalls "demo" 2 ops 5
  obtain ⟨entry, hentry, hlast, -⟩ := hvalue 1 (by cbv)
  have habsent := hrefused (ops.take 4) 1 "d" [] rfl (by simp) (by cbv)
  exact ⟨⟨entry, hentry, hlast⟩, by cbv, habsent⟩

end Cache

end BudgetCache
