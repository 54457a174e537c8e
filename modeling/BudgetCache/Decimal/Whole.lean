/-!
# Whole numbers

Numbers are written with the fewest decimal digits and, below zero, a minus sign. The readers are
more generous than the writers: they allow a plus sign and leading zeros. Each reader takes the
range that its numbers must lie in, and a text that is not a number and a number out of range are
refused alike. Only the ASCII digits count as digits.
-/

namespace BudgetCache.Decimal

/-- The digits of a number, most significant first and without leading zeros; zero is `0`. -/
def digits (n : Nat) : List Char :=
  Nat.toDigits 10 n

/-- The decimal text of a natural number. -/
def ofNat (n : Nat) : String :=
  String.ofList (digits n)

/-- The decimal text of an integer. -/
def ofInt : Int → String
  | .ofNat n => ofNat n
  | .negSucc n => String.ofList ('-' :: digits (n + 1))

/-- Reads one or more digits. -/
def readDigits? (cs : List Char) : Option Nat :=
  if !cs.isEmpty && cs.all Char.isDigit then some (Nat.ofDigitChars 10 cs 0) else none

/-- Reads digits after an optional plus sign. -/
def readUnsigned? : List Char → Option Nat
  | '+' :: cs => readDigits? cs
  | cs => readDigits? cs

/-- Reads digits after an optional plus or minus sign. -/
def readSigned? : List Char → Option Int
  | '-' :: cs => (readDigits? cs).map fun n => -(n : Int)
  | cs => (readUnsigned? cs).map fun n => (n : Int)

/-- Reads a natural number below `bound`. -/
def natBelow? (bound : Nat) (text : String) : Option Nat :=
  (readUnsigned? text.toList).filter fun n => decide (n < bound)

/-- Reads an integer that is at least `-bound` and below `bound`. -/
def intWithin? (bound : Nat) (text : String) : Option Int :=
  (readSigned? text.toList).filter fun z => decide (-(bound : Int) ≤ z) && decide (z < bound)

/-- A number has at least one digit. -/
theorem digits_ne_nil (n : Nat) : digits n ≠ [] := by
  rw [digits, Nat.toDigits_eq_if (by decide)]
  split <;> simp

/-- Only decimal digits are written. -/
theorem isDigit_of_mem_digits {n : Nat} {c : Char} (h : c ∈ digits n) : c.isDigit = true :=
  Nat.isDigit_of_mem_toDigits (by decide) (by decide) h

/-- Reading the digits of a number gives the number back. -/
theorem readDigits?_digits (n : Nat) : readDigits? (digits n) = some n := by
  have hall : ∀ c ∈ digits n, c.isDigit = true := fun _ => isDigit_of_mem_digits
  have hvalue : Nat.ofDigitChars 10 (digits n) 0 = n :=
    Nat.ofDigitChars_toDigits (by decide) (by decide)
  simpa [readDigits?, digits_ne_nil, hvalue] using hall

/-- Different numbers have different digits. -/
theorem digits_inj {m n : Nat} (h : digits m = digits n) : m = n := by
  simpa [readDigits?_digits] using congrArg readDigits? h

end BudgetCache.Decimal
