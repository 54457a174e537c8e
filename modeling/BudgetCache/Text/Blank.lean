/-!
# Blank characters

Scripts and settings are cut at *blank* characters: those with the Unicode property White_Space.
The property is a fixed list of 25 code points, kept here as inclusive ranges. It is wider than
`Char.isWhitespace`, which knows only space, tab, carriage return and line feed; lookalikes such as
the zero width space are not blank.
-/

namespace BudgetCache.Text

/-- The code points with the property White_Space, as inclusive ranges in increasing order. -/
def blankRanges : List (Nat × Nat) :=
  [(0x09, 0x0D), (0x20, 0x20), (0x85, 0x85), (0xA0, 0xA0), (0x1680, 0x1680), (0x2000, 0x200A),
    (0x2028, 0x2029), (0x202F, 0x202F), (0x205F, 0x205F), (0x3000, 0x3000)]

/-- Whether a character separates words. -/
def isBlank (c : Char) : Bool :=
  blankRanges.any fun range => decide (range.1 ≤ c.toNat) && decide (c.toNat ≤ range.2)

/-- A character is blank exactly when its code point lies in one of the ranges. -/
theorem isBlank_iff {c : Char} :
    isBlank c = true ↔ ∃ range ∈ blankRanges, range.1 ≤ c.toNat ∧ c.toNat ≤ range.2 := by
  simp [isBlank, List.any_eq_true]

end BudgetCache.Text
