import BudgetCache.Decimal.Whole

/-!
# JSON texts

The compact JSON text of a string and of an object: no space anywhere, and an object's members in
the order given. In a string only the quote, the backslash and the control characters below the
space are escaped; every other character stands for itself.
-/

namespace BudgetCache.Text.Json

/-- How one character is written inside a string. -/
def stringChar (c : Char) : List Char :=
  if c = '"' then ['\\', '"']
  else if c = '\\' then ['\\', '\\']
  else if c = '\x08' then ['\\', 'b']
  else if c = '\x0c' then ['\\', 'f']
  else if c = '\n' then ['\\', 'n']
  else if c = '\r' then ['\\', 'r']
  else if c = '\t' then ['\\', 't']
  else if c.toNat < 0x20 then
    ['\\', 'u', '0', '0', Nat.digitChar (c.toNat / 16), Nat.digitChar (c.toNat % 16)]
  else [c]

/-- The JSON text of a string. -/
def string (text : String) : String :=
  String.ofList ('"' :: text.toList.flatMap stringChar ++ ['"'])

/-- The JSON text of an object whose members are given as names with the JSON texts of their
values. -/
def object (members : List (String × String)) : String :=
  "\x7b" ++ ",".intercalate (members.map fun member => string member.1 ++ ":" ++ member.2) ++ "\x7d"

end BudgetCache.Text.Json
