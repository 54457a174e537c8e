import BudgetCache.Proofs.Numerals
import BudgetCache.Proofs.Spacing
import BudgetCache.Script.Command
import Mathlib

/-!
# The grammar of commands

A command is a phrase of one to four words: a keyword in any mixture of cases and its arguments, the
last of which may be a number in a certain range. Lines are read exactly by this grammar. Therefore
a command that is written out is read back, whatever the case of the keyword, the zeros in front of
a number and the blanks around the words.
-/

namespace BudgetCache

/-- The word is the keyword, but for the case of the letters of ASCII. -/
def Keyword.Spells (word : String) (keyword : Keyword) : Prop :=
  word.toList.map Char.toLower = keyword.name.toList

instance (word : String) (keyword : Keyword) : Decidable (keyword.Spells word) :=
  inferInstanceAs (Decidable (word.toList.map Char.toLower = keyword.name.toList))

namespace Command

/-- The words that make up a command. -/
inductive Phrase : List String → Command → Prop
  | put {word key text : String} (h : Keyword.Spells word .put) :
    Phrase [word, key, text] (put key text 1)
  | putCost {word key text number : String} {cost : Nat} (h : Keyword.Spells word .put)
    (hnumber : Decimal.Unsigned number.toList cost) (hcost : cost < 2 ^ 32) :
    Phrase [word, key, text, number] (put key text cost)
  | get {word key : String} (h : Keyword.Spells word .get) : Phrase [word, key] (get key)
  | peek {word key : String} (h : Keyword.Spells word .peek) : Phrase [word, key] (peek key)
  | remove {word key : String} (h : Keyword.Spells word .remove) : Phrase [word, key] (remove key)
  | flush {word : String} (h : Keyword.Spells word .flush) : Phrase [word] (flush none)
  | flushKey {word key : String} (h : Keyword.Spells word .flush) :
    Phrase [word, key] (flush (some key))
  | limit {word number : String} {z : Int} (h : Keyword.Spells word .limit)
    (hnumber : Decimal.Signed number.toList z) (hmin : -2 ^ 63 ≤ z) (hmax : z < 2 ^ 63) :
    Phrase [word, number] (limit z)
  | oldest {word : String} (h : Keyword.Spells word .oldest) : Phrase [word] oldest
  | ratio {word : String} (h : Keyword.Spells word .ratio) : Phrase [word] ratio
  | dump {word : String} (h : Keyword.Spells word .dump) : Phrase [word] dump
  | stats {word : String} (h : Keyword.Spells word .stats) : Phrase [word] stats

/-! ## Reading words -/

theorem ofWord?_eq_some {word : String} {keyword : Keyword} :
    Keyword.ofWord? word = some keyword ↔ keyword.Spells word := by
  rw [Keyword.ofWord?, Keyword.Spells]
  constructor
  · intro h
    have hfound := List.find?_some h
    exact (beq_iff_eq.1 hfound).symm
  · intro h
    rw [h]
    cases keyword <;> decide

theorem cost?_eq_some {number : String} {cost : Nat} :
    Quantity.cost? number = some cost ↔ Decimal.Unsigned number.toList cost ∧ cost < 2 ^ 32 :=
  Decimal.natBelow?_eq_some

theorem limit?_eq_some {number : String} {z : Int} :
    Quantity.limit? number = some z ↔
      Decimal.Signed number.toList z ∧ -2 ^ 63 ≤ z ∧ z < 2 ^ 63 :=
  Decimal.intWithin?_eq_some

/-- A keyword with all its arguments and none too many is a phrase. -/
theorem phrase_of_ofArguments {word : String} {keyword : Keyword} {arguments : List String}
    {c : Command} (hword : keyword.Spells word)
    (h : ofArguments keyword arguments = .ok (c, [])) : Phrase (word :: arguments) c := by
  revert h
  fun_cases ofArguments keyword arguments <;> rintro ⟨⟩
  case case3 key text => exact .put hword
  case case4 key text number cost hcost =>
    obtain ⟨hnumber, hbound⟩ := cost?_eq_some.1 hcost
    exact .putCost hword hnumber hbound
  case case7 key => exact .get hword
  case case9 key => exact .peek hword
  case case11 key => exact .remove hword
  case case12 => exact .flush hword
  case case13 key => exact .flushKey hword
  case case15 number z hz =>
    obtain ⟨hnumber, hmin, hmax⟩ := limit?_eq_some.1 hz
    exact .limit hword hnumber hmin hmax
  case case17 => exact .oldest hword
  case case18 => exact .ratio hword
  case case19 => exact .dump hword
  case case20 => exact .stats hword

theorem ofWords_of_ofArguments {word : String} {keyword : Keyword} {arguments : List String}
    {c : Command} (hword : keyword.Spells word)
    (h : ofArguments keyword arguments = .ok (c, [])) : ofWords (word :: arguments) = .ok c := by
  rw [ofWords, ofWord?_eq_some.2 hword]
  dsimp only
  rw [h]

theorem ofWords_of_phrase {words : List String} {c : Command} (h : Phrase words c) :
    ofWords words = .ok c := by
  cases h with
  | put h => exact ofWords_of_ofArguments h rfl
  | @putCost word key text number cost h hnumber hcost =>
    refine ofWords_of_ofArguments h ?_
    rw [ofArguments, cost?_eq_some.2 ⟨hnumber, hcost⟩]
  | get h => exact ofWords_of_ofArguments h rfl
  | peek h => exact ofWords_of_ofArguments h rfl
  | remove h => exact ofWords_of_ofArguments h rfl
  | flush h => exact ofWords_of_ofArguments h rfl
  | flushKey h => exact ofWords_of_ofArguments h rfl
  | @limit word number z h hnumber hmin hmax =>
    refine ofWords_of_ofArguments h ?_
    rw [ofArguments, limit?_eq_some.2 ⟨hnumber, hmin, hmax⟩]
  | oldest h => exact ofWords_of_ofArguments h rfl
  | ratio h => exact ofWords_of_ofArguments h rfl
  | dump h => exact ofWords_of_ofArguments h rfl
  | stats h => exact ofWords_of_ofArguments h rfl

theorem ofWords_eq_ok_iff {words : List String} {c : Command} :
    ofWords words = .ok c ↔ Phrase words c := by
  refine ⟨fun h => ?_, ofWords_of_phrase⟩
  cases words with
  | nil => cases h
  | cons word arguments =>
    rw [ofWords] at h
    split at h
    · cases h
    · next keyword hkeyword =>
      split at h
      · cases h
      · next found hfound =>
        cases h
        exact phrase_of_ofArguments (ofWord?_eq_some.1 hkeyword) hfound
      · cases h

/-- A line is read by what its words say. -/
theorem ofLine_of_spaced {line : String} {words : List String} (h : Text.Spaced line words) :
    ofLine line = ofWords words := by
  rw [ofLine, Text.spaced_iff.1 h]

theorem ofLine_eq_ok_iff {line : String} {c : Command} :
    ofLine line = .ok c ↔ Phrase (Text.words line) c :=
  ofWords_eq_ok_iff

theorem Phrase.spells {words : List String} {c : Command} (h : Phrase words c) :
    ∃ word arguments, words = word :: arguments ∧ c.keyword.Spells word := by
  cases h <;> exact ⟨_, _, rfl, by assumption⟩

/-! ## Writing commands out -/

/-- The arguments of a command, numbers with some zeros in front. -/
def arguments (zeros : Nat) : Command → List String
  | put key text cost => [key, text, String.ofList (Decimal.padded zeros cost)]
  | get key | peek key | remove key | flush (some key) => [key]
  | limit z => [String.ofList (Decimal.paddedInt zeros z)]
  | flush none | oldest | ratio | dump | stats => []

/-- The commands that can be written on a line: their keys and texts are words, and their numbers
are in range. -/
def Writable : Command → Prop
  | put key text cost =>
    Text.IsWord key.toList ∧ Text.IsWord text.toList ∧ cost < 2 ^ 32
  | get key | peek key | remove key | flush (some key) => Text.IsWord key.toList
  | limit z => -2 ^ 63 ≤ z ∧ z < 2 ^ 63
  | flush none | oldest | ratio | dump | stats => True

theorem Writable.phrase {c : Command} (h : c.Writable) {word : String}
    (hword : c.keyword.Spells word) (zeros : Nat) : Phrase (word :: c.arguments zeros) c := by
  cases c with
  | put key text cost =>
    have hnumber := Decimal.numeral_padded zeros cost
    exact .putCost hword (.bare (by rwa [String.toList_ofList])) h.2.2
  | get key => exact .get hword
  | peek key => exact .peek hword
  | remove key => exact .remove hword
  | flush key =>
    cases key with
    | none => exact .flush hword
    | some key => exact .flushKey hword
  | limit z =>
    have hnumber := Decimal.signed_paddedInt zeros z
    exact .limit hword (by rwa [String.toList_ofList]) h.1 h.2
  | oldest => exact .oldest hword
  | ratio => exact .ratio hword
  | dump => exact .dump hword
  | stats => exact .stats hword

theorem isWord_of_spells {word : String} {keyword : Keyword} (h : keyword.Spells word) :
    Text.IsWord word.toList := by
  have hne : keyword.name.toList ≠ [] := by
    cases keyword <;> decide
  have hletters : ∀ c ∈ keyword.name.toList, 0x61 ≤ c.toNat ∧ c.toNat ≤ 0x7A := by
    cases keyword <;> simp [Keyword.name]
  rw [Keyword.Spells] at h
  rw [← h] at hletters hne
  refine ⟨by simpa using hne, fun c hc => ?_⟩
  obtain ⟨hmin, hmax⟩ := hletters c.toLower (List.mem_map_of_mem hc)
  by_cases hupper : c.isUpper = true
  · have hrange : 65 ≤ c.toNat ∧ c.toNat ≤ 90 := by
      simpa [Char.isUpper, UInt32.le_iff_toNat_le] using hupper
    exact Text.not_isBlank_of_ascii (by omega) (by omega)
  · rw [Char.toLower_eq_of_not_isUpper hupper] at hmin hmax
    exact Text.not_isBlank_of_ascii (by omega) (by omega)

theorem not_isBlank_of_isDigit {c : Char} (h : c.isDigit = true) : Text.isBlank c = false := by
  have hrange : 48 ≤ c.toNat ∧ c.toNat ≤ 57 := by
    simpa [Char.isDigit, UInt32.le_iff_toNat_le] using h
  exact Text.not_isBlank_of_ascii (by omega) (by omega)

theorem isWord_padded (zeros n : Nat) : Text.IsWord (Decimal.padded zeros n) := by
  obtain ⟨hne, hdigits⟩ := (Decimal.numeral_padded zeros n).digits
  exact ⟨hne, fun c hc => not_isBlank_of_isDigit (hdigits c hc)⟩

theorem isWord_paddedInt (zeros : Nat) (z : Int) : Text.IsWord (Decimal.paddedInt zeros z) := by
  cases z with
  | ofNat n => exact isWord_padded zeros n
  | negSucc n =>
    refine ⟨List.cons_ne_nil _ _, List.forall_mem_cons.2 ⟨by decide, ?_⟩⟩
    exact (isWord_padded zeros (n + 1)).2

theorem Writable.isWord_arguments {c : Command} (h : c.Writable) (zeros : Nat) :
    ∀ word ∈ c.arguments zeros, Text.IsWord word.toList := by
  intro word hword
  cases c with
  | put key text cost =>
    obtain ⟨hkey, htext, -⟩ := h
    simp only [arguments, List.mem_cons, List.not_mem_nil, or_false] at hword
    rcases hword with rfl | rfl | rfl
    · exact hkey
    · exact htext
    · rw [String.toList_ofList]
      exact isWord_padded zeros cost
  | get key | peek key | remove key =>
    rw [List.mem_singleton.1 hword]
    exact h
  | flush key =>
    cases key with
    | none => exact (List.not_mem_nil hword).elim
    | some key =>
      rw [List.mem_singleton.1 hword]
      exact h
  | limit z =>
    rw [List.mem_singleton.1 hword, String.toList_ofList]
    exact isWord_paddedInt zeros z
  | oldest | ratio | dump | stats => exact (List.not_mem_nil hword).elim

theorem Writable.ofLine_layout {c : Command} (h : c.Writable) {l : Text.Layout} {word : String}
    {zeros : Nat} (hword : c.keyword.Spells word) (hl : l.words = word :: c.arguments zeros) :
    ofLine l.line = .ok c := by
  have hwords : ∀ w ∈ l.words, Text.IsWord w.toList := by
    rw [hl]
    exact List.forall_mem_cons.2 ⟨isWord_of_spells hword, h.isWord_arguments zeros⟩
  rw [ofLine_of_spaced (l.spaced hwords), hl]
  exact ofWords_of_phrase (h.phrase hword zeros)

/-- Lines are read exactly by the grammar, and a command that is written out in any way is read
back. -/
theorem ofLine_grammar :
    (∀ line : String, ∃! words, Text.Spaced line words) ∧
    (∀ (line : String) (words : List String), Text.Spaced line words →
      ∀ c, ofLine line = .ok c ↔ Phrase words c) ∧
    (∀ (line : String) (c : Command), ofLine line = .ok c → ∃ first rest,
      Text.Spaced line (first :: rest) ∧
      first.toList.map Char.toLower = c.keyword.name.toList) ∧
    (∀ c : Command, c.Writable → ∀ (l : Text.Layout) (word : String) (zeros : Nat),
      c.keyword.Spells word → l.words = word :: c.arguments zeros → ofLine l.line = .ok c) := by
  have hread : ∀ (line : String) (words : List String), Text.Spaced line words →
      ∀ c, ofLine line = .ok c ↔ Phrase words c := by
    intro line words hwords c
    rw [ofLine_of_spaced hwords]
    exact ofWords_eq_ok_iff
  refine ⟨fun line => ?_, hread, fun line c h => ?_, ?_⟩
  · refine ⟨Text.words line, Text.spaced_words line, fun words hwords => ?_⟩
    exact (Text.spaced_iff.1 hwords).symm
  · obtain ⟨first, rest, hwords, hfirst⟩ := (ofLine_eq_ok_iff.1 h).spells
    exact ⟨first, rest, Text.spaced_iff.2 hwords, hfirst⟩
  · intro c h l word zeros hword hl
    exact h.ofLine_layout hword hl

/-- A line with leading zeros, tabs and a wide blank, and one that has a word too many. -/
theorem ofLine_grammar_put :
    ofLine " pUT\ta \u2003tree 007\n" = .ok (put "a" "tree" 7) ∧
      ∀ c, ofLine "get a b" ≠ .ok c := by
  let l : Text.Layout := {
    pieces := [([' '], "pUT"), (['\t'], "a"), ([' ', '\u2003'], "tree"), ([' '], "007")]
    trail := ['\n']
    gaps := by simp [Text.IsGap, Text.isBlank, Text.blankRanges]
    apart := by simp
    trail_gap := by simp [Text.IsGap, Text.isBlank, Text.blankRanges] }
  have hwritable : (put "a" "tree" 7).Writable := by
    simp [Writable, Text.IsWord, Text.isBlank, Text.blankRanges]
  refine ⟨ofLine_grammar.2.2.2 _ hwritable l "pUT" 2 (by decide) rfl, fun c hc => ?_⟩
  have hspaced : Text.Spaced "get a b" ["get", "a", "b"] := Text.spaced_iff.2 (by cbv)
  cases (ofLine_grammar.2.1 _ _ hspaced c).1 hc with
  | put h => exact absurd h (by decide)

end Command

end BudgetCache
