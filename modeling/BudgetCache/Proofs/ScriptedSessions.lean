import BudgetCache.Proofs.Grammar
import BudgetCache.Proofs.KeyIdentity
import BudgetCache.Proofs.Noninterference
import Mathlib

/-!
# Sessions filled by scripts

A command either only asks or comes down to one operation on the cache, and a script comes down to
the history of the operations of its lines. A session is scripted if everything in its cache was put
there by lines. Lines are cut at blanks, so in the cache of a scripted session all keys and texts
are words, whatever else was done to it.
-/

namespace BudgetCache

namespace Operation

variable {κ ν : Type} [BEq κ] [LawfulBEq κ]

theorem eq_put {op : Operation κ ν} {key : κ} {value : ν} (h : op.puts? key = some value) :
    op = .put key value := by
  cases op with
  | put other value' =>
    have hput : (if other == key then some value' else none) = some value := h
    by_cases hkey : (other == key) = true
    · rw [if_pos hkey] at hput
      rw [eq_of_beq hkey, Option.some.inj hput]
    · rw [if_neg hkey] at hput
      cases hput
  | _ => cases h

end Operation

/-- An item is in the cache because it was put there in this step, or because its key and value were
there before. -/
theorem Reference.Step.put_or_old {κ ν : Type} [BEq κ] [LawfulBEq κ] {r : Reference κ ν}
    {op : Operation κ ν} {o : Outcome (Reference κ ν) (Reply κ ν)} {touched : Option (Item κ ν)}
    {kept : List (Item κ ν)} (hstep : r.Step op o touched kept) {item : Item κ ν}
    (hitem : item ∈ o.after.items) :
    op = .put item.key item.value ∨
      ∃ old ∈ r.items, old.key = item.key ∧ old.value = item.value := by
  rw [hstep.items] at hitem
  rcases List.mem_append.1 hitem with hmem | hmem
  · rcases hstep.origin item (Option.mem_toList.1 hmem) with hput | ⟨-, -, hold⟩
    · exact .inl (Operation.eq_put hput)
    · exact .inr hold
  · exact .inr ⟨item, hstep.sublist.subset hmem, rfl, rfl⟩

namespace Table

variable {κ ν : Type} [BEq κ] [LawfulBEq κ] [Hashable κ] [Footprint ν]

theorem Sound.put_or_old {t : Table κ ν} (h : t.Sound) {op : Operation κ ν} {item : Item κ ν}
    (hitem : item ∈ (t.apply op).after.view.items) :
    op = .put item.key item.value ∨
      ∃ old ∈ t.view.items, old.key = item.key ∧ old.value = item.value := by
  rw [(h.apply op).view] at hitem
  obtain ⟨touched, kept, hstep⟩ := h.wellFormed.exists_step op
  exact hstep.put_or_old hitem

theorem Sound.peek_eq_some {t : Table κ ν} (h : t.Sound) {key : κ} {value : ν} :
    t.peek key = some value ↔ ∃ item ∈ t.view.items, item.key = key ∧ item.value = value := by
  rw [h.peek, Reference.peek, Option.map_eq_some_iff]
  constructor
  · rintro ⟨item, hfind, hvalue⟩
    exact ⟨item, List.mem_of_find?_eq_some hfind, eq_of_beq (Reference.exists_of_find? hfind).1,
      hvalue⟩
  · rintro ⟨item, hitem, hkey, hvalue⟩
    exact ⟨item, h.wellFormed.distinct.find?_eq hitem (beq_iff_eq.2 hkey), hvalue⟩

end Table

namespace Command

/-- The operation on the cache that a command comes down to, unless it only asks. -/
def operation? : Command → Option (Operation String Artifact)
  | put key text cost => some (.put key ⟨text, cost⟩)
  | get key => some (.get key)
  | remove key => some (.remove key)
  | flush (some key) => some (.erase key)
  | flush none => some .clear
  | limit z => some (.setLimit z)
  | peek _ | oldest | ratio | dump | stats => none

theorem eq_put_of_operation? {c : Command} {key : String} {value : Artifact}
    (h : c.operation? = some (.put key value)) : c = put key value.text value.cost := by
  cases c with
  | put key' text cost =>
    cases h
    rfl
  | flush key' => cases key' <;> cases h
  | _ => cases h

/-- The operation that a line comes down to. -/
def operationOf? (line : String) : Option (Operation String Artifact) :=
  (ofLine line).toOption.bind operation?

theorem operationOf?_eq_some {line : String} {op : Operation String Artifact} :
    operationOf? line = some op ↔ ∃ c, ofLine line = .ok c ∧ c.operation? = some op := by
  unfold operationOf?
  cases ofLine line with
  | error defect => simp [Except.toOption]
  | ok c => simp [Except.toOption]

/-- What a line puts into a cache are words. -/
theorem isWord_of_operationOf? {line key : String} {value : Artifact}
    (h : operationOf? line = some (.put key value)) :
    Text.IsWord key.toList ∧ Text.IsWord value.text.toList := by
  obtain ⟨c, hc, hop⟩ := operationOf?_eq_some.1 h
  have hwords := (Text.spaced_words line).isWord
  rw [eq_put_of_operation? hop, ofLine_eq_ok_iff] at hc
  generalize Text.words line = words at hc hwords
  obtain ⟨text, cost⟩ := value
  cases hc with
  | put => exact ⟨hwords key (by simp), hwords text (by simp)⟩
  | putCost => exact ⟨hwords key (by simp), hwords text (by simp)⟩

/-- No command begins with the sign of a remark. -/
theorem operationOf?_silent {line : String} (h : Session.isSilent (Text.trim line) = true) :
    operationOf? line = none := by
  rw [Session.isSilent_trim (Text.spaced_words line)] at h
  by_contra hsome
  obtain ⟨op, hop⟩ := Option.ne_none_iff_exists'.1 hsome
  obtain ⟨c, hc, -⟩ := operationOf?_eq_some.1 hop
  obtain ⟨word, arguments, hwords, hspells⟩ := (ofLine_eq_ok_iff.1 hc).spells
  have hword := isWord_of_spells hspells
  obtain ⟨first, rest, hfirst⟩ := List.exists_cons_of_ne_nil hword.1
  have hsign : first = '#' := h first (by simp [hwords, hfirst])
  rw [Keyword.Spells, hfirst, hsign, List.map_cons] at hspells
  cases hkeyword : c.keyword <;> rw [hkeyword] at hspells <;> cases hspells

end Command

namespace Session

/-- A command does to the cache what its operation does, if it has one. -/
theorem cache_perform (s : Session) (c : Command) :
    (s.perform c).after.cache =
      c.operation?.elim s.cache fun op => (s.cache.apply op).after := by
  cases c with
  | flush key => cases key <;> rfl
  | _ => rfl

theorem cache_respond (s : Session) (line : String) :
    (s.respond line).after.cache =
      (Command.operationOf? line).elim s.cache fun op => (s.cache.apply op).after := by
  cases hsilent : isSilent (Text.trim line) with
  | true =>
    rw [respond_silent s hsilent, Command.operationOf?_silent hsilent]
    rfl
  | false =>
    rw [respond]
    simp only [hsilent, ofLine_trim, Command.operationOf?]
    cases Command.ofLine line with
    | error defect => rfl
    | ok c => exact cache_perform s c

/-- A script is a history of the cache. -/
theorem cache_afterAll (s : Session) (lines : List String) :
    (s.afterAll lines).cache = (s.cache.run (lines.filterMap Command.operationOf?)).after := by
  induction lines generalizing s with
  | nil => rfl
  | cons line lines ih =>
    have hline := cache_respond s line
    rw [afterAll_cons, ih]
    cases hop : Command.operationOf? line with
    | none =>
      rw [hop] at hline
      rw [List.filterMap_cons_none hop, hline]
      rfl
    | some op =>
      rw [hop] at hline
      rw [List.filterMap_cons_some hop, hline]
      rfl

theorem name_afterAll (s : Session) (lines : List String) :
    (s.afterAll lines).cache.name = s.cache.name := by
  rw [cache_afterAll, Cache.run_eq_onTable]
  rfl

theorem view_afterAll {s : Session} (h : s.cache.Sound) (lines : List String) :
    (s.afterAll lines).cache.view =
      (s.cache.view.run (lines.filterMap Command.operationOf?)).after := by
  rw [cache_afterAll, Cache.run_eq_onTable]
  exact (h.run _).view

/-- The sessions that begin with an empty cache and store what lines of a script say, and nothing
else. -/
inductive Scripted : Session → Prop
  | start {cache : Cache String Artifact} (h : cache.Reachable) (hempty : cache.isEmpty = true) :
    Scripted ⟨cache⟩
  | respond {s : Session} (h : Scripted s) (line : String) : Scripted (s.respond line).after
  | perform {s : Session} (h : Scripted s) {c : Command}
    (hc : ∀ key text cost, c ≠ .put key text cost) : Scripted (s.perform c).after

theorem Scripted.afterAll {s : Session} (h : s.Scripted) (lines : List String) :
    (s.afterAll lines).Scripted := by
  induction lines generalizing s with
  | nil => exact h
  | cons line lines ih =>
    rw [afterAll_cons]
    exact ih (h.respond line)

/-- All keys and texts in the cache are words. -/
def Worded (c : Cache String Artifact) : Prop :=
  ∀ item ∈ c.view.items, Text.IsWord item.key.toList ∧ Text.IsWord item.value.text.toList

theorem Worded.apply {c : Cache String Artifact} (h : Worded c) (hc : c.Reachable)
    {op : Operation String Artifact} (hop : ∀ key value, op = .put key value →
      Text.IsWord key.toList ∧ Text.IsWord value.text.toList) : Worded (c.apply op).after := by
  intro item hitem
  rcases hc.ready.sound.put_or_old hitem with hput | ⟨old, hold, hkey, hvalue⟩
  · exact hop _ _ hput
  · rw [← hkey, ← hvalue]
    exact h old hold

theorem Scripted.reachable_worded {s : Session} (h : s.Scripted) :
    s.cache.Reachable ∧ Worded s.cache := by
  have hstep : ∀ {c : Cache String Artifact} {op? : Option (Operation String Artifact)},
      c.Reachable ∧ Worded c →
      (∀ key value, op? = some (.put key value) →
        Text.IsWord key.toList ∧ Text.IsWord value.text.toList) →
      (op?.elim c fun op => (c.apply op).after).Reachable ∧
        Worded (op?.elim c fun op => (c.apply op).after) := by
    rintro c op? ⟨hreachable, hworded⟩ hput
    cases op? with
    | none => exact ⟨hreachable, hworded⟩
    | some op =>
      refine ⟨hreachable.apply op, hworded.apply hreachable fun key value hop => ?_⟩
      exact hput key value (congrArg some hop)
  induction h with
  | @start cache h hempty =>
    refine ⟨h, fun item hitem => ?_⟩
    rw [h.ready.sound.showsAs.isEmpty, List.isEmpty_iff] at hempty
    rw [hempty] at hitem
    exact (List.not_mem_nil hitem).elim
  | @respond s h line ih =>
    rw [cache_respond]
    exact hstep ih fun key value => Command.isWord_of_operationOf?
  | @perform s h c hc ih =>
    rw [cache_perform]
    refine hstep ih fun key value hop => ?_
    exact absurd (Command.eq_put_of_operation? hop) (hc key value.text value.cost)

theorem Scripted.reachable {s : Session} (h : s.Scripted) : s.cache.Reachable :=
  h.reachable_worded.1

theorem Scripted.worded {s : Session} (h : s.Scripted) : Worded s.cache :=
  h.reachable_worded.2

end Session

end BudgetCache
