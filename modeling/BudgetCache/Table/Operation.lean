import BudgetCache.Table.Access

/-!
# Operations as data

The operations on a table as values, so that a history is a list. Every operation has a reply, and
`run` tells the replies and events of a whole history.
-/

namespace BudgetCache

/-- An operation on a table or a cache. -/
inductive Operation (κ ν : Type) where
  /-- Store a value under a key. -/
  | put (key : κ) (value : ν)
  /-- Look up a key and touch it. -/
  | get (key : κ)
  /-- Look up a key without touching it. -/
  | peek (key : κ)
  /-- Ask for the stored key that equals a key. -/
  | storedKey (key : κ)
  /-- Ask whether a key is present. -/
  | contains (key : κ)
  /-- Remove a key and tell its value. -/
  | remove (key : κ)
  /-- Remove a key. -/
  | erase (key : κ)
  /-- Remove every key. -/
  | clear
  /-- Change the limit. -/
  | setLimit (limit : Int)
  deriving Repr, DecidableEq

/-- The reply to an operation. -/
inductive Reply (κ ν : Type) where
  /-- The value handed in. -/
  | echo (value : ν)
  /-- The value found, if any. -/
  | found (value : Option ν)
  /-- A key. -/
  | key (key : κ)
  /-- Yes or no. -/
  | answer (yes : Bool)
  /-- Nothing. -/
  | done
  deriving Repr, DecidableEq

namespace Table

variable {κ ν : Type} [BEq κ] [Hashable κ] [Footprint ν]

/-- Carries out an operation. -/
def apply (t : Table κ ν) : Operation κ ν → Outcome (Table κ ν) (Reply κ ν)
  | .put key value => (t.put key value).map .echo
  | .get key => (t.get key).map .found
  | .peek key => { reply := .found (t.peek key), after := t }
  | .storedKey key => { reply := .key (t.storedKey key), after := t }
  | .contains key => { reply := .answer (t.contains key), after := t }
  | .remove key => (t.remove key).map .found
  | .erase key => (t.erase key).map fun _ => .done
  | .clear => t.clear.map fun _ => .done
  | .setLimit limit => (t.setLimit limit).map fun _ => .done

/-- Carries out a list of operations. The reply lists the replies. -/
def run (t : Table κ ν) : List (Operation κ ν) → Outcome (Table κ ν) (List (Reply κ ν))
  | [] => { reply := [], after := t }
  | op :: ops =>
    let first := t.apply op
    let rest := first.after.run ops
    { reply := first.reply :: rest.reply
      after := rest.after
      events := first.events ++ rest.events }

/-- A history may be cut in two anywhere. -/
theorem run_append (t : Table κ ν) (ops later : List (Operation κ ν)) :
    t.run (ops ++ later) =
      { reply := (t.run ops).reply ++ ((t.run ops).after.run later).reply
        after := ((t.run ops).after.run later).after
        events := (t.run ops).events ++ ((t.run ops).after.run later).events } := by
  induction ops generalizing t with
  | nil => rfl
  | cons op ops ih => simp [run, ih]

end Table

end BudgetCache
