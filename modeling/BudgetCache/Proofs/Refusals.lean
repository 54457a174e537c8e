import BudgetCache.Proofs.Grammar
import Mathlib

/-!
# Why a line is refused

A line may have several defects at once and is refused for one of them. Which one it is depends on
the words alone: first comes a keyword that is none, then an argument that is required and not
there, then a number that is none or out of range, and last a word too many. Here this order is
stated through the arguments that each keyword takes. Every line that is not a command has exactly
one defect by these rules, and it is the one reported.
-/

namespace BudgetCache

namespace Keyword

/-- The arguments without which the keyword is no command. -/
def required : Keyword → List Parameter
  | put => [.key, .text]
  | get | peek | remove => [.key]
  | limit => [.limit]
  | flush | oldest | ratio | dump | stats => []

/-- The arguments that the keyword takes besides. -/
def optional : Keyword → List Parameter
  | put => [.cost]
  | flush => [.key]
  | get | peek | remove | limit | oldest | ratio | dump | stats => []

/-- The arguments that the keyword takes, in their order. -/
def parameters (keyword : Keyword) : List Parameter :=
  keyword.required ++ keyword.optional

end Keyword

/-- Whether a word can be the argument: a cost is a number below `2 ^ 32`, a limit one between
`-2 ^ 63` and `2 ^ 63`, and all else may be any word. -/
def Parameter.Admits : Parameter → String → Prop
  | key, _ | text, _ => True
  | cost, word => ∃ n, Decimal.Unsigned word.toList n ∧ n < 2 ^ 32
  | limit, word => ∃ z, Decimal.Signed word.toList z ∧ -2 ^ 63 ≤ z ∧ z < 2 ^ 63

namespace Command

/-- The words that make up no command, each time with the defect that comes first. -/
inductive Refusal : List String → Defect → Prop
  | blank : Refusal [] (.unknown "")
  | unknown {word : String} {args : List String} (h : ∀ k : Keyword, ¬k.Spells word) :
    Refusal (word :: args) (.unknown word)
  | missing {word : String} {args : List String} {k : Keyword} {p : Parameter}
    (h : k.Spells word) (hmissing : k.required[args.length]? = some p) :
    Refusal (word :: args) (.missing k p)
  | unreadable {word arg : String} {args : List String} {k : Keyword} {p : Parameter}
    (h : k.Spells word) (harg : (arg, p) ∈ args.zip k.parameters) (hbad : ¬p.Admits arg) :
    Refusal (word :: args) (.notNumber p arg)
  | surplus {word : String} {args : List String} {k : Keyword} (h : k.Spells word)
    (hgood : ∀ pair ∈ args.zip k.parameters, pair.2.Admits pair.1)
    (hmany : k.parameters.length < args.length) : Refusal (word :: args) (.surplus k)

/-! ## Reading arguments -/

theorem admits_cost {word : String} :
    Parameter.cost.Admits word ↔ ∃ cost, Quantity.cost? word = some cost := by
  simp only [Parameter.Admits, cost?_eq_some]

theorem admits_limit {word : String} :
    Parameter.limit.Admits word ↔ ∃ z, Quantity.limit? word = some z := by
  simp only [Parameter.Admits, limit?_eq_some]

theorem ofArguments_missing {k : Keyword} {args : List String} {p : Parameter}
    (h : k.required[args.length]? = some p) : ofArguments k args = .error (.missing k p) := by
  fun_cases ofArguments k args <;> simp_all [Keyword.required]

/-- Only `put` takes a cost, after its other arguments. -/
theorem eq_of_cost_mem_zip {k : Keyword} {args : List String} {arg : String}
    (h : (arg, Parameter.cost) ∈ args.zip k.parameters) :
    k = .put ∧ ∃ key text rest, args = key :: text :: arg :: rest := by
  rcases args with _ | ⟨key, _ | ⟨text, _ | ⟨number, rest⟩⟩⟩ <;> cases k <;>
    simp_all [Keyword.parameters, Keyword.required, Keyword.optional]

/-- Only `limit` takes a limit, and no other argument. -/
theorem eq_of_limit_mem_zip {k : Keyword} {args : List String} {arg : String}
    (h : (arg, Parameter.limit) ∈ args.zip k.parameters) :
    k = .limit ∧ ∃ rest, args = arg :: rest := by
  rcases args with _ | ⟨key, _ | ⟨text, _ | ⟨number, rest⟩⟩⟩ <;> cases k <;>
    simp_all [Keyword.parameters, Keyword.required, Keyword.optional]

theorem ofArguments_unreadable {k : Keyword} {args : List String} {arg : String} {p : Parameter}
    (harg : (arg, p) ∈ args.zip k.parameters) (hbad : ¬p.Admits arg) :
    ofArguments k args = .error (.notNumber p arg) := by
  cases p with
  | key => exact absurd trivial hbad
  | text => exact absurd trivial hbad
  | cost =>
    obtain ⟨rfl, key, text, rest, rfl⟩ := eq_of_cost_mem_zip harg
    rw [admits_cost, ← Option.isSome_iff_exists, Option.not_isSome_iff_eq_none] at hbad
    rw [ofArguments, hbad]
  | limit =>
    obtain ⟨rfl, rest, rfl⟩ := eq_of_limit_mem_zip harg
    rw [admits_limit, ← Option.isSome_iff_exists, Option.not_isSome_iff_eq_none] at hbad
    rw [ofArguments, hbad]

/-- The arguments that are required and readable are read, and the words after them are left
over. -/
theorem ofArguments_good {k : Keyword} {args : List String}
    (hthere : k.required.length ≤ args.length)
    (hgood : ∀ pair ∈ args.zip k.parameters, pair.2.Admits pair.1) :
    ∃ c, ofArguments k args = .ok (c, args.drop k.parameters.length) := by
  cases k with
  | put =>
    match args with
    | [] => exact absurd hthere (by decide)
    | [_] => exact absurd hthere (Nat.not_succ_le_self 1)
    | [key, text] => exact ⟨put key text defaultCost, rfl⟩
    | key :: text :: number :: rest =>
      have hnumber := hgood (number, .cost)
        (List.mem_cons_of_mem _ (List.mem_cons_of_mem _ List.mem_cons_self))
      obtain ⟨cost, hcost⟩ := admits_cost.1 hnumber
      refine ⟨put key text cost, ?_⟩
      rw [ofArguments, hcost]
      rfl
  | get | peek | remove =>
    cases args with
    | nil => exact absurd hthere (by decide)
    | cons key rest => exact ⟨_, rfl⟩
  | flush =>
    cases args with
    | nil => exact ⟨flush none, rfl⟩
    | cons key rest => exact ⟨flush (some key), rfl⟩
  | limit =>
    cases args with
    | nil => exact absurd hthere (by decide)
    | cons number rest =>
      obtain ⟨z, hz⟩ := admits_limit.1 (hgood (number, .limit) List.mem_cons_self)
      refine ⟨limit z, ?_⟩
      rw [ofArguments, hz]
      rfl
  | oldest | ratio | dump | stats => exact ⟨_, rfl⟩

/-! ## Reading words -/

theorem ofWords_of_error {word : String} {k : Keyword} {args : List String} {d : Defect}
    (hword : k.Spells word) (h : ofArguments k args = .error d) :
    ofWords (word :: args) = .error d := by
  rw [ofWords, ofWord?_eq_some.2 hword]
  dsimp only
  rw [h]

theorem ofWords_of_surplus {word extra : String} {k : Keyword} {args rest : List String}
    {c : Command} (hword : k.Spells word) (h : ofArguments k args = .ok (c, extra :: rest)) :
    ofWords (word :: args) = .error (.surplus k) := by
  rw [ofWords, ofWord?_eq_some.2 hword]
  dsimp only
  rw [h]

theorem ofWords_of_refusal {words : List String} {d : Defect} (h : Refusal words d) :
    ofWords words = .error d := by
  cases h with
  | blank => rfl
  | @unknown word args hnone =>
    have hword : Keyword.ofWord? word = none := by
      rw [Option.eq_none_iff_forall_ne_some]
      intro k hk
      exact hnone k (ofWord?_eq_some.1 hk)
    rw [ofWords, hword]
  | missing hword hmissing => exact ofWords_of_error hword (ofArguments_missing hmissing)
  | unreadable hword harg hbad => exact ofWords_of_error hword (ofArguments_unreadable harg hbad)
  | @surplus word args k hword hgood hmany =>
    have hthere : k.required.length ≤ args.length := by
      unfold Keyword.parameters at hmany
      rw [List.length_append] at hmany
      omega
    obtain ⟨c, hread⟩ := ofArguments_good hthere hgood
    cases hrest : args.drop k.parameters.length with
    | nil =>
      have hle := List.drop_eq_nil_iff.1 hrest
      omega
    | cons extra rest =>
      rw [hrest] at hread
      exact ofWords_of_surplus hword hread

/-- Words that make up no command have a defect. -/
theorem phrase_or_refusal (words : List String) :
    (∃ c, Phrase words c) ∨ ∃ d, Refusal words d := by
  cases words with
  | nil => exact .inr ⟨_, .blank⟩
  | cons word args =>
    by_cases hword : ∃ k : Keyword, k.Spells word
    · obtain ⟨k, hword⟩ := hword
      by_cases hthere : k.required.length ≤ args.length
      · by_cases hgood : ∀ pair ∈ args.zip k.parameters, pair.2.Admits pair.1
        · by_cases hmany : k.parameters.length < args.length
          · exact .inr ⟨_, .surplus hword hgood hmany⟩
          · obtain ⟨c, hread⟩ := ofArguments_good hthere hgood
            rw [List.drop_of_length_le (Nat.not_lt.1 hmany)] at hread
            exact .inl ⟨c, phrase_of_ofArguments hword hread⟩
        · push Not at hgood
          obtain ⟨⟨arg, p⟩, harg, hbad⟩ := hgood
          exact .inr ⟨_, .unreadable hword harg hbad⟩
      · have hmissing : k.required[args.length]? = some k.required[args.length] :=
          List.getElem?_eq_getElem (Nat.not_le.1 hthere)
        exact .inr ⟨_, .missing hword hmissing⟩
    · push Not at hword
      exact .inr ⟨_, .unknown hword⟩

theorem ofWords_eq_error_iff {words : List String} {d : Defect} :
    ofWords words = .error d ↔ Refusal words d := by
  constructor
  · intro h
    rcases phrase_or_refusal words with ⟨c, hc⟩ | ⟨d', hd'⟩
    · rw [ofWords_of_phrase hc] at h
      cases h
    · rw [ofWords_of_refusal hd'] at h
      cases h
      exact hd'
  · exact ofWords_of_refusal

/-- A line that is refused is refused for the defect that comes first. Every line that is not a
command has one such defect and no other. -/
theorem ofLine_refusal :
    (∀ line : String, ∃! words, Text.Spaced line words) ∧
    (∀ (line : String) (words : List String), Text.Spaced line words →
      ∀ d, ofLine line = .error d ↔ Refusal words d) ∧
    (∀ (words : List String) (d d' : Defect), Refusal words d → Refusal words d' → d = d') ∧
    ∀ words : List String, (∃ d, Refusal words d) ↔ ¬∃ c, Phrase words c := by
  refine ⟨?_, ?_, ?_, ?_⟩
  · intro line
    refine ⟨Text.words line, Text.spaced_words line, fun words hwords => ?_⟩
    exact (Text.spaced_iff.1 hwords).symm
  · intro line words hwords d
    rw [ofLine_of_spaced hwords]
    exact ofWords_eq_error_iff
  · intro words d d' h h'
    have hd := ofWords_of_refusal h
    rw [ofWords_of_refusal h'] at hd
    exact (Except.error.inj hd).symm
  · intro words
    constructor
    · rintro ⟨d, hd⟩ ⟨c, hc⟩
      have hread := ofWords_of_phrase hc
      rw [ofWords_of_refusal hd] at hread
      cases hread
    · intro hnone
      exact (phrase_or_refusal words).resolve_left hnone

/-- Lines with several defects: words after an unknown keyword and after a number that is none, and
a limit that is out of range by one and followed by another word. -/
theorem ofLine_refusal_several :
    ofLine "Jump a b c d e" = .error (.unknown "Jump") ∧
      ofLine "PUT a" = .error (.missing .put .text) ∧
      ofLine "Put a tree heavy 4 5" = .error (.notNumber .cost "heavy") ∧
      ofLine "limit 9223372036854775808 x" =
        .error (.notNumber .limit "9223372036854775808") ∧
      ofLine "oldest now" = .error (.surplus .oldest) := by
  obtain ⟨-, hread, -, -⟩ := ofLine_refusal
  have hcost : ¬Parameter.cost.Admits "heavy" := by
    have hnone : Quantity.cost? "heavy" = none := by decide
    simp [admits_cost, hnone]
  have hlimit : ¬Parameter.limit.Admits "9223372036854775808" := by
    have hnone : Quantity.limit? "9223372036854775808" = none := by decide
    simp [admits_limit, hnone]
  refine ⟨?_, ?_, ?_, ?_, ?_⟩
  · have hspaced : Text.Spaced "Jump a b c d e" ["Jump", "a", "b", "c", "d", "e"] :=
      Text.spaced_iff.2 (by cbv)
    exact (hread _ _ hspaced _).2 (.unknown fun k => by cases k <;> decide)
  · have hspaced : Text.Spaced "PUT a" ["PUT", "a"] := Text.spaced_iff.2 (by cbv)
    exact (hread _ _ hspaced _).2 (.missing (by decide) rfl)
  · have hspaced : Text.Spaced "Put a tree heavy 4 5" ["Put", "a", "tree", "heavy", "4", "5"] :=
      Text.spaced_iff.2 (by cbv)
    exact (hread _ _ hspaced _).2 (.unreadable (k := .put) (by decide) (by decide) hcost)
  · have hspaced :
        Text.Spaced "limit 9223372036854775808 x" ["limit", "9223372036854775808", "x"] :=
      Text.spaced_iff.2 (by cbv)
    exact (hread _ _ hspaced _).2 (.unreadable (k := .limit) (by decide) (by decide) hlimit)
  · have hspaced : Text.Spaced "oldest now" ["oldest", "now"] := Text.spaced_iff.2 (by cbv)
    exact (hread _ _ hspaced _).2
      (.surplus (by decide) (fun pair hpair => by cases hpair) (by decide))

end Command

end BudgetCache
