/-!
# Lines of a byte sequence

A script arrives as bytes. Its lines end at a line feed, and a carriage return directly before the
line feed belongs to the line ending, too. What follows the last line feed is a line only if it is
not empty, and as it has no line ending it keeps a carriage return at its end. Lines are cut before
they are decoded, so that bytes that are not UTF-8 spoil one line and not those before it.
-/

namespace BudgetCache.Text

/-- The byte that ends a line. -/
def lineFeed : UInt8 := 10

/-- The byte that may stand before a line feed as a part of the line ending. -/
def carriageReturn : UInt8 := 13

/-- The bytes without one carriage return at the end. -/
def dropReturn (bytes : List UInt8) : List UInt8 :=
  if bytes.getLast? = some carriageReturn then bytes.dropLast else bytes

/-- Turns the pieces between line feeds into lines. Every piece but the last had a line feed
after it. -/
def closeLines : List (List UInt8) → List (List UInt8)
  | [] => []
  | [last] => if last.isEmpty then [] else [last]
  | piece :: rest => dropReturn piece :: closeLines rest

/-- The lines of a byte sequence, without their line endings. -/
def linesOf (bytes : List UInt8) : List (List UInt8) :=
  closeLines (bytes.splitOnP (· == lineFeed))

end BudgetCache.Text
