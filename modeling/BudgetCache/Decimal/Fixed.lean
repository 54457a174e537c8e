import BudgetCache.Decimal.FloatValue
import BudgetCache.Decimal.Whole
import BudgetCache.Text.Trim

/-!
# Fixed and trimmed decimals

A number with a fixed count of fraction digits is rounded from its exact value to the nearest
multiple of the last digit, a tie going to the even neighbour. A negative number keeps its minus
sign even when it rounds to zero. The trimmed text then loses the zeros that end the fraction, and
the point when no fraction is left.
-/

namespace BudgetCache.Decimal

/-- The integer nearest to `num / den`; of two that are equally near, the even one. -/
def roundDiv (num den : Nat) : Nat :=
  let quotient := num / den
  let remainder := num % den
  if 2 * remainder < den then quotient
  else if den < 2 * remainder then quotient + 1
  else quotient + quotient % 2

/-- The last `count` decimal digits of a number, with leading zeros where it has fewer. -/
def lastDigits : Nat → Nat → List Char
  | 0, _ => []
  | count + 1, n => lastDigits count (n / 10) ++ [Nat.digitChar (n % 10)]

/-- The text of `n / 10 ^ places`: the integer part, a point, and exactly `places` digits. -/
def pointed (places n : Nat) : List Char :=
  digits (n / Nat.pow 10 places) ++ '.' :: lastDigits places n

/-- The multiple of `10 ^ -places` nearest to `significand * 2 ^ exponent`, as a count of that
unit. -/
def inUnits (places significand : Nat) : Int → Nat
  | .ofNat e => significand * Nat.pow 2 e * Nat.pow 10 places
  | .negSucc e => roundDiv (significand * Nat.pow 10 places) (Nat.pow 2 (e + 1))

/-- The text of a finite number with `places` fraction digits. -/
def fixedDigits (places : Nat) (negative : Bool) (significand : Nat) (exponent : Int) : List Char :=
  (if negative then ['-'] else []) ++ pointed places (inUnits places significand exponent)

/-- Removes the zeros that end a text, then the points that end it. -/
def trimZeros (cs : List Char) : List Char :=
  Text.dropEndWhile (· == '.') (Text.dropEndWhile (· == '0') cs)

namespace FloatValue

/-- Writes a number, leaving the text of a finite one to `write`. -/
def textWith (write : Bool → Nat → Int → List Char) : FloatValue → String
  | .undefined => "NaN"
  | .infinite false => "inf"
  | .infinite true => "-inf"
  | .finite negative significand exponent => String.ofList (write negative significand exponent)

/-- The text with `places` fraction digits. -/
def fixed (places : Nat) : FloatValue → String :=
  textWith (fixedDigits places)

/-- The text with at most `places` fraction digits, none of the last ones zero. -/
def trimmed (places : Nat) : FloatValue → String :=
  textWith fun negative significand exponent =>
    trimZeros (fixedDigits places negative significand exponent)

example : fixed 2 (finite false 1 (-3)) = "0.12" := by cbv
example : fixed 2 (finite false 3 (-3)) = "0.38" := by cbv
example : trimmed 3 (finite false 25 2) = "100" := by cbv
example : trimmed 3 (finite true 0 0) = "-0" := by cbv

end FloatValue

/-- Rounding moves a quotient by half a unit at most. -/
theorem roundDiv_near (num : Nat) {den : Nat} (hden : 0 < den) :
    2 * (roundDiv num den * den) ≤ 2 * num + den ∧
      2 * num ≤ 2 * (roundDiv num den * den) + den := by
  have hsplit := Nat.div_add_mod num den
  have hlt := Nat.mod_lt num hden
  rw [Nat.mul_comm] at hsplit
  unfold roundDiv
  dsimp only
  split
  · omega
  · split
    · rw [Nat.add_mul]
      omega
    · rcases Nat.mod_two_eq_zero_or_one (num / den) with h | h <;> rw [h, Nat.add_mul] <;> omega

end BudgetCache.Decimal
