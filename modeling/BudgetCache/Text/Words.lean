import BudgetCache.Text.Blank

/-!
# Words

The words of a line are its maximal runs of characters that are not blank. They are found by
splitting at every blank character and forgetting the empty pieces, so blanks at the ends of the
line and repeated blanks between words make no difference.
-/

namespace BudgetCache.Text

/-- The maximal runs of non-blank characters, in order. -/
def wordsOf (cs : List Char) : List (List Char) :=
  (cs.splitOnP isBlank).filter fun piece => !piece.isEmpty

/-- The words of a line, in order. -/
def words (line : String) : List String :=
  (wordsOf line.toList).map String.ofList

@[simp]
theorem wordsOf_nil : wordsOf [] = [] := by
  simp [wordsOf]

/-- A blank character ends one group of words and starts the next. -/
theorem wordsOf_append_blank {c : Char} (hc : isBlank c = true) (xs ys : List Char) :
    wordsOf (xs ++ c :: ys) = wordsOf xs ++ wordsOf ys := by
  simp [wordsOf, List.splitOnP_append_cons xs ys hc]

/-- A blank character in front adds no word. -/
theorem wordsOf_cons_blank {c : Char} (hc : isBlank c = true) (cs : List Char) :
    wordsOf (c :: cs) = wordsOf cs := by
  simpa using wordsOf_append_blank hc [] cs

end BudgetCache.Text
