/-!
# The number that a float denotes

A double precision float is a sign, a biased exponent of 11 bits and a fraction of 52 bits. Texts of
floats are made from the exact number these fields denote, never from a nearby one, so the fields
are taken apart here once: a finite float is an integer significand times a power of two.
-/

namespace BudgetCache.Decimal

/-- What a float denotes. -/
inductive FloatValue where
  /-- Not a number. -/
  | undefined
  /-- An infinity of the given sign. -/
  | infinite (negative : Bool)
  /-- The number `± significand * 2 ^ exponent`; zero has a sign too. -/
  | finite (negative : Bool) (significand : Nat) (exponent : Int)
  deriving Repr, DecidableEq

namespace FloatValue

/-- Takes apart the 64 bits of a float. A biased exponent of zero marks the numbers without the
implicit leading bit, and the largest one marks infinities and undefined results. -/
def ofBits (bits : Nat) : FloatValue :=
  let negative := decide (Nat.pow 2 63 ≤ bits)
  let biased : Nat := bits / Nat.pow 2 52 % Nat.pow 2 11
  let fraction : Nat := bits % Nat.pow 2 52
  if biased = Nat.pow 2 11 - 1 then
    if fraction = 0 then .infinite negative else .undefined
  else if biased = 0 then
    .finite negative fraction (-1074)
  else
    .finite negative (Nat.pow 2 52 + fraction) ((biased : Int) - 1075)

/-- What a float denotes. -/
def ofFloat (x : Float) : FloatValue :=
  ofBits x.toBits.toNat

example : ofBits 0x3FF0000000000000 = finite false (2 ^ 52) (-52) := by decide
example : ofBits 0x8000000000000000 = finite true 0 (-1074) := by decide
example : ofBits 0xFFF0000000000000 = infinite true := by decide

end FloatValue

end BudgetCache.Decimal
