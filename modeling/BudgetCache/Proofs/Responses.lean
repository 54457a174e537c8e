import BudgetCache.Proofs.DumpText
import BudgetCache.Proofs.ScriptedSessions
import BudgetCache.Proofs.Storing
import Mathlib

/-!
# What responses tell

A response to a lookup is the text of the artifact found, or a marker if there is none. The text of
an artifact is read from its end: the cost in parentheses is the last thing in it, and everything
before is the artifact's own text, whatever characters that has. The marker ends in a parenthesis
without a cost, so no artifact has it for a text, and a response tells what was found.

The response to the question for the oldest key is that key as it is, or the same marker. Here the
marker says less: it is itself a word, so a script can store something under it.
-/

namespace BudgetCache

/-! ## Reading responses -/

namespace Artifact

/-- The artifact that a response to a lookup shows: digits in parentheses at the end, and any text
before them and a space. -/
def ofResponse? (response : String) : Option Artifact :=
  match response.toList.reverse with
  | ')' :: cs =>
    match cs.dropWhile Char.isDigit with
    | '(' :: ' ' :: text =>
      (Decimal.readDigits? (cs.takeWhile Char.isDigit).reverse).map fun cost =>
        ⟨String.ofList text.reverse, cost⟩
    | _ => none
  | _ => none

theorem ofResponse?_display (a : Artifact) : ofResponse? a.display = some a := by
  have hback : a.display.toList.reverse =
      ')' :: ((Decimal.digits a.cost).reverse ++ '(' :: ' ' :: a.text.toList.reverse) := by
    simp [display, Decimal.ofNat]
  have hdigits : ∀ c ∈ (Decimal.digits a.cost).reverse, c.isDigit = true := fun c hc =>
    Decimal.isDigit_of_mem_digits (List.mem_reverse.1 hc)
  have hopen : Char.isDigit '(' = false := rfl
  unfold ofResponse?
  rw [hback]
  simp only [List.dropWhile_append_of_pos hdigits, List.takeWhile_append_of_pos hdigits,
    List.dropWhile_cons, List.takeWhile_cons, hopen, Bool.false_eq_true, if_false, List.append_nil,
    List.reverse_reverse, Decimal.readDigits?_digits, Option.map_some, String.ofList_toList]

theorem ofResponse?_nothing : ofResponse? Session.nothing = none := by
  decide

theorem ofResponse?_lookupResponse (found : Option Artifact) :
    ofResponse? (Session.lookupResponse found) = found := by
  cases found with
  | none => exact ofResponse?_nothing
  | some a => exact ofResponse?_display a

end Artifact

theorem Session.lookupResponse_eq_nothing {found : Option Artifact} :
    lookupResponse found = nothing ↔ found = none := by
  constructor
  · intro h
    rw [← Artifact.ofResponse?_lookupResponse found, h, Artifact.ofResponse?_nothing]
  · rintro rfl
    rfl

/-! ## Lookups -/

namespace Table

variable {κ ν : Type} [BEq κ] [Hashable κ] [Footprint ν] [EquivBEq κ] [LawfulHashable κ]

omit [LawfulHashable κ] in
theorem Sound.reply_get {t : Table κ ν} (h : t.Sound) (key : κ) :
    (t.get key).reply = t.peek key := by
  rw [(h.get key).reply, h.peek, Reference.get, Reference.peek]
  cases t.view.find? key <;> rfl

theorem Sound.reply_remove {t : Table κ ν} (h : t.Sound) (key : κ) :
    (t.remove key).reply = t.peek key := by
  rw [(h.remove key).reply, h.peek]
  rfl

end Table

/-- The commands that look up a key. -/
inductive Command.LooksUp (key : String) : Command → Prop
  | get : LooksUp key (.get key)
  | peek : LooksUp key (.peek key)
  | remove : LooksUp key (.remove key)

namespace Session

theorem reply_of_looksUp {s : Session} (h : s.cache.Reachable) {key : String} {c : Command}
    (hc : c.LooksUp key) : (s.perform c).reply = lookupResponse (s.cache.peek key) := by
  have hsound := h.ready.sound
  cases hc with
  | get => exact congrArg lookupResponse (hsound.reply_get key)
  | peek => rfl
  | remove => exact congrArg lookupResponse (hsound.reply_remove key)

/-- The sessions that come about by taking a cache, running lines and carrying out commands, whose
keys and texts may be anything. -/
inductive Reachable : Session → Prop
  | take {cache : Cache String Artifact} (h : cache.Reachable) : Reachable ⟨cache⟩
  | respond {s : Session} (h : Reachable s) (line : String) : Reachable (s.respond line).after
  | perform {s : Session} (h : Reachable s) (c : Command) : Reachable (s.perform c).after

theorem Reachable.cache {s : Session} (h : s.Reachable) : s.cache.Reachable := by
  have hstep : ∀ {c : Cache String Artifact} (op? : Option (Operation String Artifact)),
      c.Reachable → (op?.elim c fun op => (c.apply op).after).Reachable := by
    intro c op? hc
    cases op? with
    | none => exact hc
    | some op => exact hc.apply op
  induction h with
  | take h => exact h
  | @respond s _ line ih =>
    rw [cache_respond]
    exact hstep _ ih
  | @perform s _ c ih =>
    rw [cache_perform]
    exact hstep _ ih

end Session

/-! ## The oldest key -/

namespace Table

variable {κ ν : Type} [BEq κ] [LawfulBEq κ] [Hashable κ] [Footprint ν]

/-- Whatever a history leaves was put by it or was there before. -/
theorem Sound.put_or_old_run {t : Table κ ν} (h : t.Sound) (ops : List (Operation κ ν))
    {item : Item κ ν} (hitem : item ∈ (t.run ops).after.view.items) :
    .put item.key item.value ∈ ops ∨
      ∃ old ∈ t.view.items, old.key = item.key ∧ old.value = item.value := by
  induction ops generalizing t with
  | nil => exact .inr ⟨item, hitem, rfl, rfl⟩
  | cons op ops ih =>
    rcases ih (h.apply op).sound hitem with hlater | ⟨old, hold, hkey, hvalue⟩
    · exact .inl (List.mem_cons_of_mem op hlater)
    · rw [← hkey, ← hvalue]
      rcases h.put_or_old hold with hput | hbefore
      · exact .inl (hput ▸ List.mem_cons_self)
      · exact .inr hbefore

theorem Sound.items_eq_nil {t : Table κ ν} (h : t.Sound) :
    t.view.items = [] ↔ t.isEmpty = true := by
  rw [h.showsAs.isEmpty, List.isEmpty_iff]

theorem Sound.peek_of_isEmpty {t : Table κ ν} (h : t.Sound) (hempty : t.isEmpty = true) (key : κ) :
    t.peek key = none := by
  rw [h.peek, Reference.peek, Reference.find?, h.items_eq_nil.2 hempty]
  rfl

theorem Sound.oldestKey?_eq_none {t : Table κ ν} (h : t.Sound) :
    t.oldestKey? = none ↔ t.isEmpty = true := by
  rw [h.showsAs.oldestKey, Option.map_eq_none_iff, List.getLast?_eq_none_iff, h.items_eq_nil]

theorem Sound.exists_oldest {t : Table κ ν} (h : t.Sound) {key : κ}
    (holdest : t.oldestKey? = some key) : ∃ item ∈ t.view.items, item.key = key := by
  rw [h.showsAs.oldestKey, Option.map_eq_some_iff] at holdest
  obtain ⟨item, hlast, hkey⟩ := holdest
  exact ⟨item, List.mem_of_getLast? hlast, hkey⟩

end Table

namespace Session

theorem keyResponse_eq_nothing {key : Option String} :
    keyResponse key = nothing ↔ key = none ∨ key = some nothing := by
  cases key with
  | none => simp [keyResponse]
  | some key => simp [keyResponse]

theorem oldest_eq_nothing {s : Session} (h : s.cache.Reachable) :
    (s.perform .oldest).reply = nothing ↔
      s.cache.isEmpty = true ∨ s.cache.oldestKey? = some nothing := by
  rw [← h.ready.sound.oldestKey?_eq_none]
  exact keyResponse_eq_nothing

/-- A key that is the marker can be looked up, and an empty cache holds none. -/
theorem isEmpty_iff_twice_nothing {s : Session} (h : s.cache.Reachable) :
    s.cache.isEmpty = true ↔
      (s.perform .oldest).reply = nothing ∧ (s.perform (.peek nothing)).reply = nothing := by
  have hsound := h.ready.sound
  rw [oldest_eq_nothing h, reply_of_looksUp h .peek, lookupResponse_eq_nothing]
  constructor
  · intro hempty
    exact ⟨.inl hempty, hsound.peek_of_isEmpty hempty nothing⟩
  · rintro ⟨hempty | holdest, habsent⟩
    · exact hempty
    · obtain ⟨item, hitem, hkey⟩ := hsound.exists_oldest holdest
      have hpresent := hsound.peek_eq_some.2 ⟨item, hitem, hkey, rfl⟩
      rw [hpresent] at habsent
      cases habsent

/-- What a script leaves in a cache that was empty before was put by one of its lines. -/
theorem exists_put_line {cache : Cache String Artifact} (h : cache.Reachable)
    (hempty : cache.isEmpty = true) {lines : List String} {item : Item String Artifact}
    (hitem : item ∈ ((Session.mk cache).afterAll lines).cache.view.items) :
    ∃ line ∈ lines, Command.ofLine line = .ok (.put item.key item.value.text item.value.cost) := by
  have hsound := h.ready.sound
  rw [cache_afterAll, Cache.run_eq_onTable] at hitem
  rcases hsound.put_or_old_run _ hitem with hput | ⟨old, hold, -⟩
  · obtain ⟨line, hline, hop⟩ := List.mem_filterMap.1 hput
    obtain ⟨c, hc, hop⟩ := Command.operationOf?_eq_some.1 hop
    rw [Command.eq_put_of_operation? hop] at hc
    exact ⟨line, hline, hc⟩
  · rw [hsound.items_eq_nil.2 hempty] at hold
    exact (List.not_mem_nil hold).elim

/-- The marker answers the question for the oldest key in two cases: the cache is empty, or the
oldest key is the marker. Looking up the marker tells them apart. The second case needs a line that
puts something under the marker. -/
theorem oldest_after_script {cache : Cache String Artifact} (h : cache.Reachable)
    (hempty : cache.isEmpty = true) (lines : List String) :
    let s := (Session.mk cache).afterAll lines
    let reply := (s.perform .oldest).reply
    (s.respond "oldest").response = some reply ∧
      (reply = nothing ↔ s.cache.isEmpty = true ∨ s.cache.oldestKey? = some nothing) ∧
      (s.cache.isEmpty = true ↔
        reply = nothing ∧ (s.perform (.peek nothing)).reply = nothing) ∧
      ((∀ line ∈ lines, ∀ text cost, Command.ofLine line ≠ .ok (.put nothing text cost)) →
        (reply = nothing ↔ s.cache.isEmpty = true)) := by
  intro s reply
  have hreachable : s.cache.Reachable := ((Scripted.start h hempty).afterAll lines).reachable
  refine ⟨?_, oldest_eq_nothing hreachable, isEmpty_iff_twice_nothing hreachable, fun hlines => ?_⟩
  · have hline : Command.ofLine "oldest" = .ok .oldest := by cbv
    rw [respond_of_ok s (by cbv) hline]
  · have hother : s.cache.oldestKey? ≠ some nothing := by
      intro holdest
      obtain ⟨item, hitem, hkey⟩ := hreachable.ready.sound.exists_oldest holdest
      obtain ⟨line, hline, hput⟩ := exists_put_line h hempty hitem
      rw [hkey] at hput
      exact hlines line hline _ _ hput
    exact (oldest_eq_nothing hreachable).trans (or_iff_left hother)

/-- Without a line that puts something under the marker, the marker means an empty cache. -/
theorem oldest_after_script_emptied :
    (((ofSettings {}).afterAll ["put a x", "remove a"]).perform .oldest).reply = nothing ↔
      ((ofSettings {}).afterAll ["put a x", "remove a"]).cache.isEmpty = true := by
  have hempty : (ofSettings {}).cache.isEmpty = true := rfl
  obtain ⟨-, -, -, hclear⟩ := oldest_after_script (.empty _ _) hempty ["put a x", "remove a"]
  refine hclear fun line hline text cost hput => ?_
  have hput' : Command.ofLine "put a x" = .ok (.put "a" "x" 1) := by cbv
  have hremove : Command.ofLine "remove a" = .ok (.remove "a") := by cbv
  simp only [List.mem_cons, List.not_mem_nil, or_false] at hline
  rcases hline with rfl | rfl
  · simp [hput', nothing] at hput
  · rw [hremove] at hput
    cases hput

/-- A script can put something under the marker, and then the marker is the oldest key of a cache
that is not empty. -/
theorem not_oldest_nothing_iff_isEmpty :
    ¬∀ (settings : Settings) (lines : List String),
      (((ofSettings settings).afterAll lines).respond "oldest").response = some nothing ↔
        ((ofSettings settings).afterAll lines).cache.isEmpty = true := by
  intro hclaim
  have hstart : (ofSettings {}).Scripted := .start (.empty _ _) rfl
  have hsound := (hstart.afterAll ["put (nil) x"]).reachable.ready.sound
  have hview : ((ofSettings {}).afterAll ["put (nil) x"]).cache.view =
      ((Reference.empty 100).run [.put nothing ⟨"x", 1⟩]).after :=
    view_afterAll hstart.reachable.ready.sound _
  have hitems : ((ofSettings {}).afterAll ["put (nil) x"]).cache.view.items =
      [⟨nothing, ⟨"x", 1⟩, 1, 0⟩] := by
    rw [hview]
    cbv
  have holdest : ((ofSettings {}).afterAll ["put (nil) x"]).cache.oldestKey? = some nothing := by
    rw [hsound.showsAs.oldestKey, hitems]
    rfl
  have hline : Command.ofLine "oldest" = .ok .oldest := by cbv
  have hmarker : (((ofSettings {}).afterAll ["put (nil) x"]).respond "oldest").response =
      some nothing := by
    rw [respond_of_ok _ (by cbv) hline]
    exact congrArg (fun key => some (keyResponse key)) holdest
  have hempty := (hclaim {} ["put (nil) x"]).1 hmarker
  rw [← hsound.items_eq_nil, hitems] at hempty
  cases hempty

end Session

end BudgetCache
