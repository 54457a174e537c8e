import BudgetCache.Proofs.DumpRows
import BudgetCache.Proofs.DumpText
import BudgetCache.Proofs.ScriptedSessions
import Mathlib

/-!
# What a dump tells

The dump of a cache hides its history and nothing else. Caches with the same contents have the same
dump. Conversely, the dump of a scripted session tells which keys its cache has and what they hold,
because words leave the separators alone. Texts that are not words may imitate rows, but even then
the response to the command is the dump without its last line feed.
-/

namespace BudgetCache

namespace Cache

variable {κ ν : Type} [BEq κ] [LawfulBEq κ] [Hashable κ] [Footprint ν]

theorem Reachable.mem_contents {c : Cache κ ν} (h : c.Reachable) {key : κ} {value : ν} :
    (key, value) ∈ c.contents ↔ c.peek key = some value := by
  rw [h.ready.sound.peek_eq_some, contents_eq]
  simp only [List.mem_map, Prod.mk.injEq]

theorem Reachable.nodup_contents {c : Cache κ ν} (h : c.Reachable) : c.contents.Nodup := by
  refine List.pairwise_map.2 (h.structures_agree.distinct.imp ?_)
  intro a b hab hsame
  rw [(Prod.mk.inj hsame).1, BEq.rfl] at hab
  cases hab

/-- Caches that answer alike have the same contents, if in another order. -/
theorem Reachable.perm_contents {c d : Cache κ ν} (h : c.Reachable) (h' : d.Reachable)
    (hpeek : ∀ key, c.peek key = d.peek key) : c.contents.Perm d.contents := by
  refine (List.perm_ext_iff_of_nodup h.nodup_contents h'.nodup_contents).2 ?_
  rintro ⟨key, value⟩
  rw [h.mem_contents, h'.mem_contents, hpeek]

end Cache

namespace Session

variable {s s' : Session}

theorem Scripted.legible (h : s.Scripted) : ∀ pair ∈ s.cache.rows, Cache.Legible pair := by
  intro pair hpair
  rw [h.reachable.perm_rows.mem_iff, Cache.texts, Cache.contents_eq, List.map_map] at hpair
  obtain ⟨item, hitem, rfl⟩ := List.mem_map.1 hpair
  obtain ⟨hkey, htext⟩ := h.worded item hitem
  refine ⟨?_, ?_⟩
  · show ' ' ∉ item.key.toList
    intro hspace
    exact absurd (hkey.2 ' ' hspace) (by decide)
  · show '\n' ∉ item.value.display.toList
    intro hnewline
    exact absurd (htext.2 '\n' (Artifact.newline_mem_text hnewline)) (by decide)

theorem Scripted.mem_texts (h : s.Scripted) {key : String} {a : Artifact} :
    (key, a.display) ∈ s.cache.texts ↔ s.cache.peek key = some a := by
  rw [← h.reachable.mem_contents, Cache.texts]
  constructor
  · intro hmem
    obtain ⟨⟨key', a'⟩, hpair, hsame⟩ := List.mem_map.1 hmem
    obtain ⟨hkey, htext⟩ := Prod.mk.inj hsame
    have hkeys : key' = key := hkey
    have hvalues : a' = a := Artifact.display_inj htext
    rw [hkeys, hvalues] at hpair
    exact hpair
  · exact List.mem_map_of_mem (f := fun pair : String × Artifact =>
      (Shown.shown pair.1, Shown.shown pair.2))

theorem shown_inj (a b : String) (h : Shown.shown a = Shown.shown b) : (a == b) = true :=
  beq_iff_eq.2 h

theorem reply_dump (s : Session) : (s.perform .dump).reply ++ "\n" = s.cache.dump :=
  Cache.trimEnd_dump s.cache

theorem Scripted.peek_eq_of_reply_eq (h : s.Scripted) (h' : s'.Scripted)
    (hname : s.cache.name = s'.cache.name) (hlimit : s.cache.limit = s'.cache.limit)
    (hreply : (s.perform .dump).reply = (s'.perform .dump).reply) (key : String) :
    s.cache.peek key = s'.cache.peek key := by
  have hdump : s.cache.dump = s'.cache.dump := by
    rw [← reply_dump, ← reply_dump, hreply]
  have hrows := Cache.rows_eq_of_dump_eq hname hlimit h.legible h'.legible hdump
  ext a
  rw [← h.mem_texts, ← h'.mem_texts, ← h.reachable.perm_rows.mem_iff,
    ← h'.reachable.perm_rows.mem_iff, hrows]

theorem reply_eq_of_peek_eq (h : s.cache.Reachable) (h' : s'.cache.Reachable)
    (hname : s.cache.name = s'.cache.name) (hlimit : s.cache.limit = s'.cache.limit)
    (hpeek : ∀ key, s.cache.peek key = s'.cache.peek key) :
    (s.perform .dump).reply = (s'.perform .dump).reply := by
  have hcontents := h.perm_contents h' hpeek
  have hspace : s.cache.valueSpace = s'.cache.valueSpace := (hcontents.map _).sum_eq
  have hdump := h.dump_eq h' shown_inj hname hlimit hspace fun pair => (hcontents.map _).mem_iff
  exact congrArg Text.trimEnd hdump

end Session

/-- If different keys have different texts, a dump has one row for each entry, in the order of the
key texts, below a heading of the name, the limit and the percentage in use, and depends on nothing
but the name, the limit and the contents. For scripted sessions the contents depend on the dump,
too. -/
theorem dump_canonical :
    (∀ {κ ν : Type} [BEq κ] [Hashable κ] [EquivBEq κ] [LawfulHashable κ] [Footprint ν] [Shown κ]
      [Shown ν], (∀ a b : κ, Shown.shown a = Shown.shown b → (a == b) = true) →
      (∀ c : Cache κ ν, c.Reachable → ∃ rows : List (String × String),
        c.dump = c.heading c.name ++ "\n" ++
          String.join (rows.map fun pair => Cache.row pair.1 pair.2) ∧
        c.heading c.name = c.name ++ "[" ++ Decimal.ofInt c.limit ++ "]: " ++
          Cache.percentage (Float.ofInt c.used * 100.0 / Float.ofInt c.limit) ++ "% full" ∧
        c.used = c.valueSpace ∧
        rows.Perm (c.chain.entries.map fun entry =>
          (Shown.shown entry.key, Shown.shown entry.value)) ∧
        rows.Pairwise fun a b => a.1 < b.1) ∧
      (∀ c d : Cache κ ν, c.Reachable → d.Reachable → c.name = d.name → c.limit = d.limit →
        c.valueSpace = d.valueSpace → (∀ pair, pair ∈ c.texts ↔ pair ∈ d.texts) →
        c.dump = d.dump)) ∧
    (∀ s s' : Session, s.Scripted → s'.Scripted → s.cache.name = s'.cache.name →
      s.cache.limit = s'.cache.limit →
      ((s.perform .dump).reply = (s'.perform .dump).reply ↔
        ∀ key, s.cache.peek key = s'.cache.peek key)) ∧
    (∀ s : Session, (s.perform .dump).reply ++ "\n" = s.cache.dump) := by
  refine ⟨?_, ?_, Session.reply_dump⟩
  · intro κ ν _ _ _ _ _ _ _ hshown
    refine ⟨fun c h => ?_, fun c d h h' => h.dump_eq h' hshown⟩
    have hperm := h.perm_rows
    rw [Cache.texts, Cache.contents, List.map_map] at hperm
    exact ⟨c.rows, rfl, rfl, h.used_eq, hperm, h.pairwise_rows hshown⟩
  · intro s s' h h' hname hlimit
    constructor
    · exact h.peek_eq_of_reply_eq h' hname hlimit
    · exact Session.reply_eq_of_peek_eq h.reachable h'.reachable hname hlimit

/-- Two scripts that come to the same contents in different orders, and a third that does not. -/
theorem dump_canonical_three :
    let s := (Session.ofSettings {}).afterAll ["put b y 2", "put a x"]
    let s' := (Session.ofSettings {}).afterAll ["put a x 1", "put c z", "put b y 2", "remove c"]
    let s'' := (Session.ofSettings {}).afterAll ["put a x", "put b y"]
    (s.perform .dump).reply = (s'.perform .dump).reply ∧
      (s.perform .dump).reply ≠ (s''.perform .dump).reply := by
  intro s s' s''
  have hstart : (Session.ofSettings {}).Scripted := .start (.empty _ _) rfl
  have hs : s.Scripted := hstart.afterAll _
  have hs' : s'.Scripted := hstart.afterAll _
  have hs'' : s''.Scripted := hstart.afterAll _
  have hempty := hstart.reachable.ready.sound
  have hview : s.cache.view = ((Reference.empty 100).run
      [.put "b" ⟨"y", 2⟩, .put "a" ⟨"x", 1⟩]).after := Session.view_afterAll hempty _
  have hview' : s'.cache.view = ((Reference.empty 100).run
      [.put "a" ⟨"x", 1⟩, .put "c" ⟨"z", 1⟩, .put "b" ⟨"y", 2⟩, .remove "c"]).after :=
    Session.view_afterAll hempty _
  have hview'' : s''.cache.view = ((Reference.empty 100).run
      [.put "a" ⟨"x", 1⟩, .put "b" ⟨"y", 1⟩]).after := Session.view_afterAll hempty _
  have hcontents : s.cache.contents = [("a", ⟨"x", 1⟩), ("b", ⟨"y", 2⟩)] := by
    rw [Cache.contents_eq, hview]
    cbv
  have hcontents' : s'.cache.contents = [("b", ⟨"y", 2⟩), ("a", ⟨"x", 1⟩)] := by
    rw [Cache.contents_eq, hview']
    cbv
  have hcontents'' : s''.cache.contents = [("b", ⟨"y", 1⟩), ("a", ⟨"x", 1⟩)] := by
    rw [Cache.contents_eq, hview'']
    cbv
  have hname : ∀ lines, ((Session.ofSettings {}).afterAll lines).cache.name = "LRUCache" :=
    Session.name_afterAll _
  have hlimit : s.cache.view.limit = 100 ∧ s'.cache.view.limit = 100 ∧
      s''.cache.view.limit = 100 := by
    rw [hview, hview', hview'']
    cbv
  obtain ⟨-, htells, -⟩ := dump_canonical
  have hsame := htells s s' hs hs' ((hname _).trans (hname _).symm)
    (hlimit.1.trans hlimit.2.1.symm)
  have hdiffers := htells s s'' hs hs'' ((hname _).trans (hname _).symm)
    (hlimit.1.trans hlimit.2.2.symm)
  refine ⟨hsame.2 fun key => ?_, fun hreply => ?_⟩
  · ext a
    rw [← hs.reachable.mem_contents, ← hs'.reachable.mem_contents, hcontents, hcontents']
    simp only [List.mem_cons, List.not_mem_nil, or_false]
    exact or_comm
  · have hfound : s.cache.peek "b" = some ⟨"y", 2⟩ :=
      hs.reachable.mem_contents.1 (by simp [hcontents])
    have hfound'' : s''.cache.peek "b" = some ⟨"y", 1⟩ :=
      hs''.reachable.mem_contents.1 (by simp [hcontents''])
    have hpeek := hdiffers.1 hreply "b"
    rw [hfound, hfound''] at hpeek
    cases hpeek

end BudgetCache
