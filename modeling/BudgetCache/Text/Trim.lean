import BudgetCache.Text.Blank

/-!
# Trimming

Cutting a run of unwanted characters off the ends of a text. `dropEndWhile` does at the end of a
list what `List.dropWhile` does at its front; `trim` removes blank characters from both ends of a
text and `trimEnd` from its end only. Characters in the middle are never touched.
-/

namespace BudgetCache.Text

variable {α : Type}

/-- Removes the longest run of elements satisfying `p` at the end of a list. -/
def dropEndWhile (p : α → Bool) (xs : List α) : List α :=
  (xs.reverse.dropWhile p).reverse

/-- The text without the blank characters at its end. -/
def trimEnd (text : String) : String :=
  String.ofList (dropEndWhile isBlank text.toList)

/-- The text without the blank characters at either end. -/
def trim (text : String) : String :=
  String.ofList (dropEndWhile isBlank (text.toList.dropWhile isBlank))

@[simp]
theorem dropEndWhile_nil (p : α → Bool) : dropEndWhile p ([] : List α) = [] :=
  rfl

/-- The last element decides whether anything is removed. -/
theorem dropEndWhile_concat (p : α → Bool) (xs : List α) (x : α) :
    dropEndWhile p (xs ++ [x]) = if p x then dropEndWhile p xs else xs ++ [x] := by
  by_cases h : p x <;> simp [dropEndWhile, h]

end BudgetCache.Text
