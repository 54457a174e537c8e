import BudgetCache.Proofs.CacheHistory
import BudgetCache.Proofs.Evictions
import BudgetCache.Script.Artifact

/-!
# Accounts of a history

The counters of a cache tell how it has been used, and they have to agree with the calls that were
made. Each call is listed with the table it met, so that the calls can be counted by what they are
and by what came of them. Entries are accounted for as well: a call creates at most one, and each
entry that leaves has one cause to do so. What is created is what is still there together with what
has left.
-/

namespace BudgetCache

/-! ## Calls -/

/-- Why an entry leaves. -/
inductive Cause where
  /-- Room was needed, or the limit was lowered. -/
  | evicted
  /-- Its key was removed. -/
  | removed
  /-- All keys were removed. -/
  | cleared
  /-- A value was put under its key that did not fit in its place. -/
  | displaced
  deriving Repr, DecidableEq

/-- An entry that left, and why. -/
structure Departure (κ ν : Type) where
  entry : Entry κ ν
  cause : Cause

/-- An operation with the table that it was carried out on. -/
structure Call (κ ν : Type) [BEq κ] [Hashable κ] where
  before : Table κ ν
  op : Operation κ ν

namespace Operation

variable {κ ν : Type}

/-- Whether the operation is a lookup that counts. -/
def looksUp : Operation κ ν → Bool
  | .get _ => true
  | _ => false

/-- Whether the operation, given its reply, is a lookup that returned a value. -/
def finds : Operation κ ν → Reply κ ν → Bool
  | .get _, .found (some _) => true
  | _, _ => false

/-- Whether the operation puts a value that is larger than the limit. -/
def exceeds [Footprint ν] (limit : Int) : Operation κ ν → Bool
  | .put _ value => decide (limit < spaceOf value)
  | _ => false

end Operation

/-- The calls of a history. -/
def Table.calls {κ ν : Type} [BEq κ] [Hashable κ] [Footprint ν] (t : Table κ ν) :
    List (Operation κ ν) → List (Call κ ν)
  | [] => []
  | op :: ops => ⟨t, op⟩ :: (t.apply op).after.calls ops

/-- The keys of the entries, the newest first. -/
def Table.storedKeys {κ ν : Type} [BEq κ] [Hashable κ] (t : Table κ ν) : List κ :=
  t.chain.entries.map (·.key)

namespace Call

variable {κ ν : Type} [BEq κ] [Hashable κ] [Footprint ν]

/-- What came of the call. -/
def outcome (call : Call κ ν) : Outcome (Table κ ν) (Reply κ ν) :=
  call.before.apply call.op

/-- Whether the call is a lookup that counts. -/
def isLookup (call : Call κ ν) : Bool :=
  call.op.looksUp

/-- Whether the call is a lookup that returned a value. -/
def isHit (call : Call κ ν) : Bool :=
  call.op.finds call.outcome.reply

/-- Whether the call puts a value that is larger than the limit at that time. -/
def isOversized (call : Call κ ν) : Bool :=
  call.op.exceeds call.before.limit

/-- Whether the call is counted as a refusal. -/
def isRefused (call : Call κ ν) : Bool :=
  decide (call.before.counters.rejections < call.outcome.after.counters.rejections)

/-- Whether the call puts a value in the place of an old one. -/
def isUpdate (call : Call κ ν) : Bool :=
  match call.op with
  | .put key value => call.before.updatesInPlace key value
  | _ => false

/-- The key of the entry that the call creates: a value is put that is neither refused nor takes the
place of an old one. -/
def created? (call : Call κ ν) : Option κ :=
  match call.op with
  | .put key _ => if call.isRefused || call.isUpdate then none else some key
  | _ => none

/-- Whether the call creates an entry. -/
def isCreation (call : Call κ ν) : Bool :=
  call.created?.isSome

/-- Whether the call puts a value under a present key without taking the place of the old value. -/
def isDisplacement (call : Call κ ν) : Bool :=
  match call.op with
  | .put key _ => call.before.contains key && !call.isUpdate
  | _ => false

/-- Whether the call removes a key that is present. -/
def isRemoval (call : Call κ ν) : Bool :=
  match call.op with
  | .remove key => call.before.contains key
  | .erase key => call.before.contains key
  | _ => false

/-- The number of entries before the call, if it removes all keys. -/
def clearedSize (call : Call κ ν) : Nat :=
  match call.op with
  | .clear => call.before.size
  | _ => 0

/-- Whether the call lowers the limit. -/
def lowersLimit (call : Call κ ν) : Bool :=
  match call.op with
  | .setLimit limit => decide (limit < call.before.limit)
  | _ => false

/-- The entries that leave in the call without being evicted. -/
def releases (call : Call κ ν) : List (Departure κ ν) :=
  match call.op with
  | .put key _ =>
    if call.isUpdate then [] else (call.before.find? key).toList.map (⟨·, .displaced⟩)
  | .remove key => (call.before.find? key).toList.map (⟨·, .removed⟩)
  | .erase key => (call.before.find? key).toList.map (⟨·, .removed⟩)
  | .clear => call.before.chain.entries.map (⟨·, .cleared⟩)
  | _ => []

/-- The entries that leave in the call. -/
def departures (call : Call κ ν) : List (Departure κ ν) :=
  call.releases ++ (call.before.evictions call.op).map (⟨·.entry, .evicted⟩)

end Call

/-- Every departure has one of the four causes. -/
theorem length_eq_causes {κ ν : Type} (departures : List (Departure κ ν)) :
    departures.length =
      (departures.map (·.cause)).count .evicted + (departures.map (·.cause)).count .removed +
        (departures.map (·.cause)).count .cleared +
        (departures.map (·.cause)).count .displaced := by
  induction departures with
  | nil => rfl
  | cons departure departures ih =>
    obtain ⟨entry, cause⟩ := departure
    cases cause <;> simp <;> omega

/-- What the calls that lead from one table to another add up to. -/
structure Accounts {κ ν : Type} [BEq κ] [Hashable κ] [Footprint ν] (calls : List (Call κ ν))
    (t t' : Table κ ν) : Prop where
  hits : t'.counters.hits = t.counters.hits + calls.countP Call.isHit
  lookups : t'.counters.hits + t'.counters.misses =
    t.counters.hits + t.counters.misses + calls.countP Call.isLookup
  rejections : t'.counters.rejections = t.counters.rejections + calls.countP Call.isOversized
  evicted : t'.counters.evictions =
    t.counters.evictions + ((calls.flatMap Call.departures).map (·.cause)).count .evicted
  removed : ((calls.flatMap Call.departures).map (·.cause)).count .removed =
    calls.countP Call.isRemoval
  cleared : ((calls.flatMap Call.departures).map (·.cause)).count .cleared =
    (calls.map Call.clearedSize).sum
  displaced : ((calls.flatMap Call.departures).map (·.cause)).count .displaced =
    calls.countP Call.isDisplacement
  entries : (calls.filterMap Call.created? ++ t.storedKeys).Perm
    (t'.storedKeys ++ (calls.flatMap Call.departures).map (·.entry.key))

namespace Accounts

variable {κ ν : Type} [BEq κ] [Hashable κ] [Footprint ν] {t t' t'' : Table κ ν}
  {calls calls' : List (Call κ ν)}

theorem nil (t : Table κ ν) : Accounts [] t t :=
  ⟨rfl, rfl, rfl, rfl, rfl, rfl, rfl, by simp⟩

open scoped List in
/-- Accounts of successive calls add up. -/
theorem append (h : Accounts calls t t') (h' : Accounts calls' t' t'') :
    Accounts (calls ++ calls') t t'' := by
  constructor
  case hits =>
    rw [h'.hits, h.hits, List.countP_append, Nat.add_assoc]
  case lookups =>
    rw [h'.lookups, h.lookups, List.countP_append, Nat.add_assoc]
  case rejections =>
    rw [h'.rejections, h.rejections, List.countP_append, Nat.add_assoc]
  case evicted =>
    rw [h'.evicted, h.evicted, List.flatMap_append, List.map_append, List.count_append,
      Nat.add_assoc]
  case removed =>
    rw [List.flatMap_append, List.map_append, List.count_append, h.removed, h'.removed,
      List.countP_append]
  case cleared =>
    rw [List.flatMap_append, List.map_append, List.count_append, h.cleared, h'.cleared,
      List.map_append, List.sum_append]
  case displaced =>
    rw [List.flatMap_append, List.map_append, List.count_append, h.displaced, h'.displaced,
      List.countP_append]
  case entries =>
    rw [List.filterMap_append, List.flatMap_append, List.map_append]
    calc (calls.filterMap Call.created? ++ calls'.filterMap Call.created?) ++ t.storedKeys
      _ ~ calls'.filterMap Call.created? ++ (calls.filterMap Call.created? ++ t.storedKeys) := by
        rw [← List.append_assoc]
        exact List.perm_append_comm.append_right t.storedKeys
      _ ~ calls'.filterMap Call.created? ++
            (t'.storedKeys ++ (calls.flatMap Call.departures).map (·.entry.key)) :=
        h.entries.append_left _
      _ ~ (t''.storedKeys ++ (calls'.flatMap Call.departures).map (·.entry.key)) ++
            (calls.flatMap Call.departures).map (·.entry.key) := by
        rw [← List.append_assoc]
        exact h'.entries.append_right _
      _ ~ t''.storedKeys ++ ((calls.flatMap Call.departures).map (·.entry.key) ++
            (calls'.flatMap Call.departures).map (·.entry.key)) := by
        rw [List.append_assoc]
        exact List.perm_append_comm.append_left t''.storedKeys

/-- The number of entries created is the number of those still there and of those that left for one
of the four causes. -/
theorem balance (h : Accounts calls t t') :
    calls.countP Call.isCreation + t.storedKeys.length + t.counters.evictions =
      t'.storedKeys.length + t'.counters.evictions + calls.countP Call.isRemoval +
        (calls.map Call.clearedSize).sum + calls.countP Call.isDisplacement := by
  have hlength := h.entries.length_eq
  have hcauses := length_eq_causes (calls.flatMap Call.departures)
  have hcreated : (calls.filterMap Call.created?).length = calls.countP Call.isCreation :=
    List.length_filterMap_eq_countP
  rw [List.length_append, List.length_append, List.length_map, hcreated, hcauses, h.removed,
    h.cleared, h.displaced] at hlength
  have hevicted := h.evicted
  omega

end Accounts

/-! ## One call -/

namespace Reference

variable {κ ν : Type} [BEq κ] [Footprint ν] [EquivBEq κ]

/-- The item of a key and the items of all other keys are all there are. -/
theorem WellFormed.perm_others {r : Reference κ ν} (h : r.WellFormed) (key : κ) :
    r.items.Perm ((r.find? key).toList ++ others key r.items) := by
  cases hfind : r.find? key with
  | none =>
    rw [others_eq_self (find?_eq_none_iff.1 hfind)]
    exact List.Perm.refl _
  | some item =>
    obtain ⟨hkey, xs, ys, hitems⟩ := exists_of_find? hfind
    have hdistinct := h.distinct
    rw [hitems] at hdistinct ⊢
    rw [hdistinct.others_middle hkey]
    exact List.perm_middle

/-- A step counts a lookup as a hit or as a miss, and a value that is larger than the limit as a
refusal. Nothing else is counted there. -/
theorem WellFormed.counters_apply {r : Reference κ ν} (h : r.WellFormed) (op : Operation κ ν) :
    (r.apply op).after.counters.hits =
        r.counters.hits + (if op.finds (r.apply op).reply then 1 else 0) ∧
      (r.apply op).after.counters.hits + (r.apply op).after.counters.misses =
        r.counters.hits + r.counters.misses + (if op.looksUp then 1 else 0) ∧
      (r.apply op).after.counters.rejections =
        r.counters.rejections + (if op.exceeds r.limit then 1 else 0) := by
  cases op with
  | put key value =>
    by_cases hlarge : r.limit < spaceOf value
    · simp only [apply, h.put_of_lt key hlarge, Operation.exceeds, decide_eq_true hlarge]
      exact ⟨rfl, rfl, rfl⟩
    · obtain ⟨stored, -, hput⟩ := h.put_of_le key (Int.not_lt.1 hlarge)
      simp only [apply, hput, Operation.exceeds, decide_eq_false hlarge]
      exact ⟨rfl, rfl, rfl⟩
  | get key =>
    cases hfind : r.find? key with
    | none =>
      simp only [apply, get, hfind]
      exact ⟨rfl, rfl, rfl⟩
    | some item =>
      simp only [apply, get, hfind]
      exact ⟨rfl, Nat.add_right_comm _ _ _, rfl⟩
  | setLimit limit =>
    by_cases hlt : limit < r.limit
    · simp only [apply, setLimit_of_lt hlt h.footprint_nonneg]
      exact ⟨rfl, rfl, rfl⟩
    · simp only [apply, Reference.setLimit, if_neg hlt]
      exact ⟨rfl, rfl, rfl⟩
  | peek key => exact ⟨rfl, rfl, rfl⟩
  | storedKey key => exact ⟨rfl, rfl, rfl⟩
  | contains key => exact ⟨rfl, rfl, rfl⟩
  | remove key => exact ⟨rfl, rfl, rfl⟩
  | erase key => exact ⟨rfl, rfl, rfl⟩
  | clear => exact ⟨rfl, rfl, rfl⟩

end Reference

theorem EvictedFrom.perm_keys {κ ν : Type} [BEq κ] [Hashable κ] {base : Reference κ ν}
    {trace : List (Eviction κ ν)} {kept : List (Item κ ν)} (h : EvictedFrom base trace kept) :
    (base.items.map (·.key)).Perm (kept.map (·.key) ++ trace.map (·.entry.key)) := by
  rw [h.items, List.map_append]
  refine List.Perm.append_left _ ?_
  rw [List.map_reverse, List.map_map]
  exact List.reverse_perm _

namespace Table

variable {κ ν : Type} [BEq κ] [Hashable κ]

theorem storedKeys_eq (t : Table κ ν) : t.storedKeys = t.view.items.map (·.key) := by
  show _ = (t.chain.entries.map Entry.item).map (·.key)
  rw [List.map_map]
  rfl

variable [Footprint ν]

theorem Sound.length_storedKeys {t : Table κ ν} (h : t.Sound) : t.storedKeys.length = t.size := by
  rw [storedKeys_eq, List.length_map, h.size]

variable [EquivBEq κ]

theorem Sound.perm_others {t : Table κ ν} (h : t.Sound) (key : κ) :
    t.storedKeys.Perm ((t.find? key).toList.map (·.key) ++
      (Reference.others key t.view.items).map (·.key)) := by
  have hperm := (h.wellFormed.perm_others key).map (·.key)
  rw [← h.find?, List.map_append] at hperm
  rw [storedKeys_eq]
  cases hfind : t.find? key <;> rw [hfind] at hperm <;> exact hperm

variable [LawfulHashable κ]

theorem Sound.length_find? {t : Table κ ν} (h : t.Sound) (key : κ) :
    (t.find? key).toList.length = (t.contains key).toNat := by
  rw [h.contains, Reference.contains, ← h.find?]
  cases t.find? key <;> rfl

/-- A call is counted as a refusal exactly if it puts a value that is larger than the limit. -/
theorem Sound.isRefused {t : Table κ ν} (h : t.Sound) (op : Operation κ ν) :
    Call.isRefused ⟨t, op⟩ = Call.isOversized ⟨t, op⟩ := by
  obtain ⟨-, -, hcount⟩ := h.wellFormed.counters_apply op
  rw [← (h.apply op).view] at hcount
  change (t.apply op).after.counters.rejections =
    t.counters.rejections + (if Call.isOversized ⟨t, op⟩ then 1 else 0) at hcount
  show decide (t.counters.rejections < (t.apply op).after.counters.rejections) = _
  rw [hcount]
  cases Call.isOversized ⟨t, op⟩ <;> simp

/-- The causes of the departures in a call, other than evictions. -/
theorem Sound.causes_releases {t : Table κ ν} (h : t.Sound) (op : Operation κ ν) :
    (Call.releases ⟨t, op⟩).map (·.cause) =
      List.replicate (Call.isRemoval ⟨t, op⟩).toNat Cause.removed ++
        List.replicate (Call.clearedSize ⟨t, op⟩) Cause.cleared ++
        List.replicate (Call.isDisplacement ⟨t, op⟩).toNat Cause.displaced := by
  have hsize : t.chain.entries.length = t.size := by
    rw [← h.length_storedKeys, storedKeys, List.length_map]
  have hkey : ∀ key (cause : Cause), (t.find? key).toList.map (fun _ => cause) =
      List.replicate (t.contains key).toNat cause := by
    intro key cause
    rw [List.map_const', h.length_find?]
  cases op with
  | put key value =>
    cases hplace : t.updatesInPlace key value <;>
      simp [Call.releases, Call.isUpdate, Call.isRemoval, Call.clearedSize, Call.isDisplacement,
        Function.comp_def, hplace, hkey]
  | remove key =>
    simp [Call.releases, Call.isRemoval, Call.clearedSize, Call.isDisplacement, Function.comp_def,
      hkey]
  | erase key =>
    simp [Call.releases, Call.isRemoval, Call.clearedSize, Call.isDisplacement, Function.comp_def,
      hkey]
  | clear =>
    simp [Call.releases, Call.isRemoval, Call.clearedSize, Call.isDisplacement, Function.comp_def,
      hsize]
  | get key => rfl
  | peek key => rfl
  | storedKey key => rfl
  | contains key => rfl
  | setLimit limit => rfl

/-- Only a call that creates an entry or lowers the limit evicts. -/
theorem Sound.evictions_eq_nil {t : Table κ ν} (h : t.Sound) {op : Operation κ ν}
    (hcreates : Call.isCreation ⟨t, op⟩ = false) (hlowers : Call.lowersLimit ⟨t, op⟩ = false) :
    t.evictions op = [] := by
  cases op with
  | put key value =>
    by_cases hlarge : t.view.limit < spaceOf value
    · exact h.evictions_put_of_lt key hlarge
    · have hrefused : Call.isRefused ⟨t, .put key value⟩ = false :=
        (h.isRefused _).trans (decide_eq_false hlarge)
      have hplace : t.updatesInPlace key value = true := by
        by_contra hnot
        rw [Bool.not_eq_true] at hnot
        simp [Call.isCreation, Call.created?, hrefused, Call.isUpdate, hnot] at hcreates
      exact (put_of_updates hplace).1
  | setLimit limit => exact if_neg (of_decide_eq_false hlowers)
  | get key => rfl
  | peek key => rfl
  | storedKey key => rfl
  | contains key => rfl
  | remove key => rfl
  | erase key => rfl
  | clear => rfl

omit [EquivBEq κ] [LawfulHashable κ] in
theorem keys_departures (t : Table κ ν) (op : Operation κ ν) :
    (Call.departures ⟨t, op⟩).map (·.entry.key) =
      (Call.releases ⟨t, op⟩).map (·.entry.key) ++ (t.evictions op).map (·.entry.key) := by
  rw [Call.departures, List.map_append, List.map_map]
  rfl

omit [LawfulHashable κ] in
theorem Sound.perm_without {t t' : Table κ ν} (h : t.Sound) {key : κ}
    (hitems : t'.view.items = Reference.others key t.view.items) :
    t.storedKeys.Perm (t'.storedKeys ++ (t.find? key).toList.map (·.key)) := by
  rw [storedKeys_eq t', hitems]
  exact (h.perm_others key).trans List.perm_append_comm

omit [LawfulHashable κ] in
/-- A touch keeps the stored key. -/
theorem Sound.perm_touched {t t' : Table κ ν} (h : t.Sound) (touched : Item κ ν) {key : κ}
    {item : Item κ ν} (hfind : t.view.find? key = some item) (hkey : touched.key = item.key)
    (hitems : t'.view.items = touched :: Reference.others key t.view.items) :
    t.storedKeys.Perm t'.storedKeys := by
  have hperm := h.perm_others key
  rw [← h.find?] at hfind
  obtain ⟨entry, hentry, rfl⟩ := Option.map_eq_some_iff.1 hfind
  rw [hentry] at hperm
  rw [storedKeys_eq t', hitems, List.map_cons, hkey]
  exact hperm

theorem Sound.perm_put_of_updates {t : Table κ ν} (h : t.Sound) {key : κ} {value : ν}
    (hplace : t.updatesInPlace key value = true) :
    t.storedKeys.Perm (t.put key value).after.storedKeys := by
  rw [h.updatesInPlace] at hplace
  obtain ⟨item, hfind, hput⟩ := Reference.put_of_updates hplace
  refine h.perm_touched ⟨item.key, value, spaceOf value, t.view.clock⟩ hfind rfl ?_
  rw [(h.put key value).view, hput]
  rfl

open scoped List in
theorem Sound.perm_put_of_le {t : Table κ ν} (h : t.Sound) {key : κ} {value : ν}
    (hplace : t.updatesInPlace key value = false) (hsmall : spaceOf value ≤ t.view.limit) :
    key :: t.storedKeys ~ (t.put key value).after.storedKeys ++
      ((t.find? key).toList.map (·.key) ++ (t.evictions (.put key value)).map (·.entry.key)) := by
  have hafter : (t.put key value).after.storedKeys = key ::
      (Reference.fitting (t.view.limit - spaceOf value)
        (Reference.others key t.view.items)).map (·.key) := by
    have hstored := Reference.insertAbsent_of_le (r := t.view.without key) hsmall
      (h.wellFormed.without_nonneg key) key value
    rw [h.updatesInPlace] at hplace
    rw [storedKeys_eq, (h.put key value).view, Reference.put_of_not_updates hplace, hstored]
    rfl
  have hevicted := (h.evictions_put_of_le key hsmall).perm_keys
  rw [hafter]
  refine List.Perm.cons key ?_
  -- Which of the other keys are kept does not matter from here on.
  generalize (Reference.fitting (t.view.limit - spaceOf value)
    (Reference.others key t.view.items)).map (·.key) = kept at hevicted ⊢
  calc t.storedKeys
    _ ~ (t.find? key).toList.map (·.key) ++ (Reference.others key t.view.items).map (·.key) :=
      h.perm_others key
    _ ~ (t.find? key).toList.map (·.key) ++
          (kept ++ (t.evictions (.put key value)).map (·.entry.key)) :=
      hevicted.append_left _
    _ ~ kept ++ ((t.find? key).toList.map (·.key) ++
          (t.evictions (.put key value)).map (·.entry.key)) := by
      rw [← List.append_assoc, ← List.append_assoc]
      exact List.perm_append_comm.append_right _

omit [LawfulHashable κ] in
theorem Sound.perm_get {t : Table κ ν} (h : t.Sound) (key : κ) :
    t.storedKeys.Perm (t.get key).after.storedKeys := by
  cases hfind : t.view.find? key with
  | none =>
    rw [storedKeys_eq, storedKeys_eq, (h.get key).view, Reference.get, hfind]
  | some item =>
    refine h.perm_touched { item with stamp := t.view.clock } hfind rfl ?_
    rw [(h.get key).view, Reference.get, hfind]
    rfl

/-- The keys created and the keys that were there are those left and those gone. -/
theorem Sound.perm_apply {t : Table κ ν} (h : t.Sound) (op : Operation κ ν) :
    ((Call.created? ⟨t, op⟩).toList ++ t.storedKeys).Perm ((t.apply op).after.storedKeys ++
      (Call.departures ⟨t, op⟩).map (·.entry.key)) := by
  have hquiet : ∀ {t' : Table κ ν}, t.storedKeys.Perm t'.storedKeys →
      ([] ++ t.storedKeys).Perm (t'.storedKeys ++ ([] ++ [])) := by
    intro t' hperm
    rwa [List.nil_append, List.append_nil, List.append_nil]
  rw [keys_departures]
  cases op with
  | put key value =>
    -- The value takes the place of the old one, is refused, or is stored as a new entry.
    show List.Perm _ ((t.put key value).after.storedKeys ++ _)
    cases hplace : t.updatesInPlace key value with
    | true =>
      simpa [Call.created?, Call.releases, Call.isUpdate, hplace, (put_of_updates hplace).1]
        using h.perm_put_of_updates hplace
    | false =>
      by_cases hlarge : t.view.limit < spaceOf value
      · have hitems : (t.put key value).after.view.items = Reference.others key t.view.items := by
          rw [(h.put key value).view, h.wellFormed.put_of_lt key hlarge]
          rfl
        have hrefused : Call.isRefused ⟨t, .put key value⟩ = true :=
          (h.isRefused _).trans (decide_eq_true hlarge)
        simpa [Call.created?, Call.releases, Call.isUpdate, hplace, hrefused,
          h.evictions_put_of_lt key hlarge, Function.comp_def] using h.perm_without hitems
      · have hrefused : Call.isRefused ⟨t, .put key value⟩ = false :=
          (h.isRefused _).trans (decide_eq_false hlarge)
        simpa [Call.created?, Call.releases, Call.isUpdate, hplace, hrefused, Function.comp_def]
          using h.perm_put_of_le hplace (Int.not_lt.1 hlarge)
  | get key => exact hquiet (h.perm_get key)
  | peek key => exact hquiet (List.Perm.refl t.storedKeys)
  | storedKey key => exact hquiet (List.Perm.refl t.storedKeys)
  | contains key => exact hquiet (List.Perm.refl t.storedKeys)
  | remove key =>
    have hitems : (t.apply (.remove key)).after.view.items = Reference.others key t.view.items :=
      congrArg Reference.items (h.remove key).view
    simpa [Call.created?, Call.releases, evictions, Function.comp_def] using h.perm_without hitems
  | erase key =>
    have hitems : (t.apply (.erase key)).after.view.items = Reference.others key t.view.items :=
      congrArg Reference.items (h.remove key).view
    simpa [Call.created?, Call.releases, evictions, Function.comp_def] using h.perm_without hitems
  | clear =>
    have hnone : (t.apply .clear).after.storedKeys = [] := by
      rw [storedKeys_eq, (h.apply .clear).view]
      rfl
    rw [hnone]
    simp [Call.created?, Call.releases, evictions, Function.comp_def, storedKeys]
  | setLimit limit =>
    have hkept := (h.evictions_setLimit limit).perm_keys
    rw [← (Reference.items_setLimit h.wellFormed.footprint_nonneg limit).1,
      ← (h.setLimit limit).view, ← storedKeys_eq, ← storedKeys_eq] at hkept
    exact hkept

/-- The accounts of one call. -/
theorem Sound.accounts_apply {t : Table κ ν} (h : t.Sound) (op : Operation κ ν) :
    Accounts [⟨t, op⟩] t (t.apply op).after := by
  obtain ⟨hhits, hlookups, hrejections⟩ := h.wellFormed.counters_apply op
  rw [← (h.apply op).view] at hhits hlookups hrejections
  rw [← (h.apply op).reply] at hhits
  have hcauses : ([⟨t, op⟩].flatMap Call.departures).map (·.cause) =
      List.replicate (Call.isRemoval ⟨t, op⟩).toNat Cause.removed ++
        List.replicate (Call.clearedSize ⟨t, op⟩) Cause.cleared ++
        List.replicate (Call.isDisplacement ⟨t, op⟩).toNat Cause.displaced ++
        List.replicate (t.evictions op).length Cause.evicted := by
    rw [List.flatMap_singleton, Call.departures, List.map_append, h.causes_releases, List.map_map]
    exact congrArg _ List.map_const'
  have hcount : ∀ p : Call κ ν → Bool, [⟨t, op⟩].countP p = (p ⟨t, op⟩).toNat := by
    intro p
    rw [List.countP_singleton]
    cases p ⟨t, op⟩ <;> rfl
  constructor
  case hits => rw [List.countP_singleton]; exact hhits
  case lookups => rw [List.countP_singleton]; exact hlookups
  case rejections => rw [List.countP_singleton]; exact hrejections
  case evicted =>
    rw [hcauses, (t.evictions_eq op).2]
    simp [List.count_replicate]
  case removed =>
    rw [hcauses, hcount]
    simp [List.count_replicate]
  case cleared =>
    rw [hcauses]
    simp [List.count_replicate]
  case displaced =>
    rw [hcauses, hcount]
    simp [List.count_replicate]
  case entries =>
    have hcreated : [⟨t, op⟩].filterMap Call.created? = (Call.created? ⟨t, op⟩).toList := by
      rw [List.filterMap_cons]
      cases Call.created? ⟨t, op⟩ <;> rfl
    rw [hcreated, List.flatMap_singleton]
    exact h.perm_apply op

/-! ## Histories -/

theorem Sound.accounts_run {t : Table κ ν} (h : t.Sound) (ops : List (Operation κ ν)) :
    Accounts (t.calls ops) t (t.run ops).after := by
  induction ops generalizing t with
  | nil => exact .nil t
  | cons op ops ih => exact (h.accounts_apply op).append (ih (h.apply op).sound)

theorem Sound.before_of_mem_calls {t : Table κ ν} (h : t.Sound) {ops : List (Operation κ ν)} :
    ∀ call ∈ t.calls ops, call.before.Sound := by
  induction ops generalizing t with
  | nil => exact fun _ hcall => (List.not_mem_nil hcall).elim
  | cons op ops ih => exact List.forall_mem_cons.2 ⟨h, ih (h.apply op).sound⟩

theorem Sound.creates_or_lowers {t : Table κ ν} (h : t.Sound) {op : Operation κ ν}
    {d : Departure κ ν} (hd : d ∈ Call.departures ⟨t, op⟩) (hcause : d.cause = .evicted) :
    Call.isCreation ⟨t, op⟩ = true ∨ Call.lowersLimit ⟨t, op⟩ = true := by
  by_contra hneither
  rw [not_or, Bool.not_eq_true, Bool.not_eq_true] at hneither
  -- Without evictions all departures are releases, none of which has this cause.
  rw [Call.departures, h.evictions_eq_nil hneither.1 hneither.2, List.map_nil, List.append_nil]
    at hd
  have hmem := List.mem_map_of_mem (f := (·.cause)) hd
  rw [h.causes_releases, hcause] at hmem
  simp at hmem

end Table

namespace Cache

variable {κ ν : Type} [BEq κ] [Hashable κ] [Footprint ν] [EquivBEq κ] [LawfulHashable κ]

/-- The accounts of a history of a fresh cache. Every counted lookup is a hit or a miss, and a hit
if it returned a value; the refusals are the values put that were larger than the limit. Every entry
created is still there or has left for one of four causes, and only what had to leave for a new
entry or for a lower limit counts as an eviction. -/
theorem run_empty_accounts (name : String) (limit : Int) (ops : List (Operation κ ν)) :
    let calls := (empty name limit).calls ops
    let c := ((empty name limit).run ops).after
    let departures := calls.flatMap Call.departures
    c.counters.hits + c.counters.misses = calls.countP Call.isLookup ∧
      c.counters.hits = calls.countP Call.isHit ∧
      c.counters.rejections = calls.countP Call.isOversized ∧
      calls.countP Call.isCreation =
        c.size + c.counters.evictions + calls.countP Call.isRemoval +
          (calls.map Call.clearedSize).sum + calls.countP Call.isDisplacement ∧
      (calls.filterMap Call.created?).Perm (c.storedKeys ++ departures.map (·.entry.key)) ∧
      (departures.map (·.cause)).count .evicted = c.counters.evictions ∧
      (departures.map (·.cause)).count .removed = calls.countP Call.isRemoval ∧
      (departures.map (·.cause)).count .cleared = (calls.map Call.clearedSize).sum ∧
      (departures.map (·.cause)).count .displaced = calls.countP Call.isDisplacement ∧
      ∀ call ∈ calls, ∀ d ∈ call.departures, d.cause = .evicted →
        call.isCreation = true ∨ call.lowersLimit = true := by
  intro calls c departures
  have hempty := Table.sound_empty (κ := κ) (ν := ν) limit
  have hsound : c.toTable.Sound := by
    simp only [c, run_eq_onTable, toTable_onTable]
    exact (hempty.run ops).sound
  have haccounts : Accounts calls (Table.empty limit) c.toTable := by
    simp only [c, run_eq_onTable, toTable_onTable]
    exact hempty.accounts_run ops
  have hnone : (Table.empty limit : Table κ ν).storedKeys = [] := by
    rw [Table.storedKeys_eq, (Table.agrees_empty limit).view_eq]
    rfl
  have hbalance := haccounts.balance
  have hentries := haccounts.entries
  rw [hnone, hsound.length_storedKeys] at hbalance
  rw [hnone, List.append_nil] at hentries
  refine ⟨?_, ?_, ?_, hbalance, hentries, ?_, haccounts.removed, haccounts.cleared,
    haccounts.displaced, ?_⟩
  · exact haccounts.lookups.trans (Nat.zero_add _)
  · exact haccounts.hits.trans (Nat.zero_add _)
  · exact haccounts.rejections.trans (Nat.zero_add _)
  · exact (haccounts.evicted.trans (Nat.zero_add _)).symm
  · exact fun call hcall d hd => (hempty.before_of_mem_calls call hcall).creates_or_lowers hd

/-- An artifact that does not fit in the place of the old one displaces it and evicts another. -/
theorem run_empty_accounts_displaced :
    let ops : List (Operation Nat Artifact) :=
      [.put 1 ⟨"a", 1⟩, .put 2 ⟨"b", 2⟩, .put 1 ⟨"c", 2⟩, .put 3 ⟨"d", 4⟩, .remove 1]
    let calls := (empty "demo" 3).calls ops
    let c := ((empty "demo" 3).run ops).after
    calls.countP Call.isCreation =
        c.size + c.counters.evictions + calls.countP Call.isRemoval +
          (calls.map Call.clearedSize).sum + calls.countP Call.isDisplacement ∧
      calls.countP Call.isCreation = 3 ∧
      (calls.flatMap Call.departures).map (fun d => (d.entry.key, d.cause)) =
        [(1, .displaced), (2, .evicted), (1, .removed)] := by
  intro ops calls c
  obtain ⟨-, -, -, hbalance, -⟩ := run_empty_accounts "demo" 3 ops
  exact ⟨hbalance, by cbv, by cbv⟩

end Cache

end BudgetCache
