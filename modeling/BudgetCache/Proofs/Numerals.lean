import BudgetCache.Script.Quantity
import Mathlib

/-!
# Numerals

The texts that denote numbers, described by how they are built and not by how they are read: digits
by adding one more digit at the end, then an optional sign in front. The readers accept exactly
these texts and give the number that each of them denotes. Leading zeros change nothing.
-/

namespace BudgetCache.Decimal

/-- ASCII digits, at least one, with the number that they denote. -/
inductive Numeral : List Char → Nat → Prop
  | digit {c : Char} (hc : c.isDigit = true) : Numeral [c] (c.toNat - '0'.toNat)
  | next {cs : List Char} {n : Nat} {c : Char} (h : Numeral cs n) (hc : c.isDigit = true) :
    Numeral (cs ++ [c]) (10 * n + (c.toNat - '0'.toNat))

/-- Digits with or without a plus sign. -/
inductive Unsigned : List Char → Nat → Prop
  | bare {cs : List Char} {n : Nat} (h : Numeral cs n) : Unsigned cs n
  | plus {cs : List Char} {n : Nat} (h : Numeral cs n) : Unsigned ('+' :: cs) n

/-- Digits with or without a plus or a minus sign. -/
inductive Signed : List Char → Int → Prop
  | unsigned {cs : List Char} {n : Nat} (h : Unsigned cs n) : Signed cs n
  | minus {cs : List Char} {n : Nat} (h : Numeral cs n) : Signed ('-' :: cs) (-n)

theorem Numeral.digits {cs : List Char} {n : Nat} (h : Numeral cs n) :
    cs ≠ [] ∧ ∀ c ∈ cs, c.isDigit = true := by
  induction h with
  | digit hc => exact ⟨by simp, by simpa using hc⟩
  | next _ hc ih =>
    refine ⟨by simp, fun d hd => ?_⟩
    rcases List.mem_append.1 hd with hmem | hmem
    · exact ih.2 d hmem
    · rw [List.mem_singleton.1 hmem]
      exact hc

theorem Numeral.value {cs : List Char} {n : Nat} (h : Numeral cs n) :
    Nat.ofDigitChars 10 cs 0 = n := by
  induction h with
  | digit hc => simp [Nat.ofDigitChars]
  | next _ hc ih => rw [Nat.ofDigitChars_append, ih]; rfl

theorem numeral_of_digits {cs : List Char} (hne : cs ≠ [])
    (hdigits : ∀ c ∈ cs, c.isDigit = true) : Numeral cs (Nat.ofDigitChars 10 cs 0) := by
  induction cs using List.reverseRecOn with
  | nil => exact absurd rfl hne
  | append_singleton cs c ih =>
    have hc : c.isDigit = true := hdigits c (by simp)
    cases cs with
    | nil =>
      have hvalue := (Numeral.digit hc).value
      rw [List.nil_append, hvalue]
      exact .digit hc
    | cons d ds =>
      have hrest := ih (by simp) fun e he => hdigits e (List.mem_append_left [c] he)
      rw [((hrest.next hc).value)]
      exact hrest.next hc

/-! ## Readers -/

theorem readDigits?_eq_some {cs : List Char} {n : Nat} :
    readDigits? cs = some n ↔ Numeral cs n := by
  unfold readDigits?
  constructor
  · intro h
    split at h
    · next hcs =>
      simp only [Bool.and_eq_true, Bool.not_eq_true', List.isEmpty_eq_false_iff, List.all_eq_true]
        at hcs
      rw [← Option.some.inj h]
      exact numeral_of_digits hcs.1 hcs.2
    · cases h
  · intro h
    obtain ⟨hne, hdigits⟩ := h.digits
    rw [h.value, if_pos]
    simpa [hne] using hdigits

/-- A numeral has no sign. -/
theorem not_numeral_cons {c : Char} (hc : c.isDigit = false) (cs : List Char) (n : Nat) :
    ¬Numeral (c :: cs) n := by
  intro h
  have hdigit := h.digits.2 c List.mem_cons_self
  rw [hc] at hdigit
  cases hdigit

theorem readUnsigned?_eq_some {cs : List Char} {n : Nat} :
    readUnsigned? cs = some n ↔ Unsigned cs n := by
  unfold readUnsigned?
  split
  · next cs =>
    rw [readDigits?_eq_some]
    constructor
    · exact .plus
    · intro h
      cases h with
      | bare h => exact absurd h (not_numeral_cons rfl cs n)
      | plus h => exact h
  · next hplus =>
    rw [readDigits?_eq_some]
    constructor
    · exact .bare
    · intro h
      cases h with
      | bare h => exact h
      | plus h => exact absurd rfl (hplus _)

theorem readSigned?_eq_some {cs : List Char} {z : Int} :
    readSigned? cs = some z ↔ Signed cs z := by
  have hcast : ∀ {o : Option Nat} {m : Int},
      (do let n ← o; pure (n : Int)) = some m ↔ ∃ n : Nat, o = some n ∧ (n : Int) = m := by
    intro o m
    cases o <;> simp
  unfold readSigned?
  split
  · next cs =>
    simp only [Option.map_eq_some_iff, hcast]
    constructor
    · rintro ⟨_, ⟨n, hn, rfl⟩, rfl⟩
      exact .minus (readDigits?_eq_some.1 hn)
    · intro h
      cases h with
      | unsigned h =>
        cases h with
        | bare h => exact absurd h (not_numeral_cons rfl cs _)
      | minus h => exact ⟨_, ⟨_, readDigits?_eq_some.2 h, rfl⟩, rfl⟩
  · next hminus =>
    simp only [Option.map_eq_some_iff, hcast]
    constructor
    · rintro ⟨_, ⟨n, hn, rfl⟩, rfl⟩
      exact .unsigned (readUnsigned?_eq_some.1 hn)
    · intro h
      cases h with
      | unsigned h => exact ⟨_, ⟨_, readUnsigned?_eq_some.2 h, rfl⟩, rfl⟩
      | minus h => exact absurd rfl (hminus _)

theorem natBelow?_eq_some {bound n : Nat} {text : String} :
    natBelow? bound text = some n ↔ Unsigned text.toList n ∧ n < bound := by
  rw [natBelow?, Option.filter_eq_some_iff, readUnsigned?_eq_some, decide_eq_true_eq]

theorem intWithin?_eq_some {bound : Nat} {z : Int} {text : String} :
    intWithin? bound text = some z ↔ Signed text.toList z ∧ -(bound : Int) ≤ z ∧ z < bound := by
  rw [intWithin?, Option.filter_eq_some_iff, readSigned?_eq_some, Bool.and_eq_true,
    decide_eq_true_eq, decide_eq_true_eq]

/-! ## Leading zeros -/

/-- A number with zeros in front. -/
def padded (zeros n : Nat) : List Char :=
  List.replicate zeros '0' ++ digits n

/-- An integer with zeros in front of its digits. -/
def paddedInt (zeros : Nat) : Int → List Char
  | .ofNat n => padded zeros n
  | .negSucc n => '-' :: padded zeros (n + 1)

theorem numeral_padded (zeros n : Nat) : Numeral (padded zeros n) n := by
  have hdigits : ∀ c ∈ padded zeros n, c.isDigit = true := by
    intro c hc
    rcases List.mem_append.1 hc with hmem | hmem
    · rw [List.eq_of_mem_replicate hmem]
      rfl
    · exact isDigit_of_mem_digits hmem
  have hvalue : Nat.ofDigitChars 10 (padded zeros n) 0 = n := by
    rw [padded, Nat.ofDigitChars_append, Nat.ofDigitChars_replicate_zero, Nat.mul_zero]
    exact Nat.ofDigitChars_toDigits (by decide) (by decide)
  have hnumeral := numeral_of_digits (by simp [padded, digits_ne_nil]) hdigits
  rw [hvalue] at hnumeral
  exact hnumeral

theorem signed_paddedInt (zeros : Nat) (z : Int) : Signed (paddedInt zeros z) z := by
  cases z with
  | ofNat n => exact .unsigned (.bare (numeral_padded zeros n))
  | negSucc n => exact .minus (numeral_padded zeros (n + 1))

end BudgetCache.Decimal
