import BudgetCache.Decimal.Whole
import BudgetCache.Log

/-!
# Cache events

What an operation on a cache leaves in the log besides its reply: a value was refused, entries were
dropped, the cache was emptied, or its limit was lowered. Events are data; their wording needs the
name of the cache and is made last.
-/

namespace BudgetCache

/-- Something worth logging that happened inside a cache. -/
inductive Event where
  /-- A value was refused because its footprint exceeds the limit. -/
  | rejected (footprint limit : Int)
  /-- The oldest entry was dropped. -/
  | evicted (footprint : Int) (stamp : Nat)
  /-- All entries are about to be dropped; there are this many. -/
  | flushing (entries : Nat)
  /-- The limit was lowered, which dropped `evictions` entries. -/
  | limitLowered (old new : Int) (evictions : Nat)
  deriving Repr, DecidableEq

namespace Event

/-- What the event of a cache called `name` says in the log. -/
def message (name : String) : Event → String
  | .rejected footprint limit =>
    name ++ ": rejected value with footprint " ++ Decimal.ofInt footprint ++ " (limit " ++
      Decimal.ofInt limit ++ ")"
  | .evicted footprint stamp =>
    name ++ ": evicted entry with footprint " ++ Decimal.ofInt footprint ++ " (timestamp " ++
      Decimal.ofNat stamp ++ ")"
  | .flushing entries =>
    name ++ ": flushing " ++ Decimal.ofNat entries ++ " entries"
  | .limitLowered old new evictions =>
    name ++ ": limit lowered from " ++ Decimal.ofInt old ++ " to " ++ Decimal.ofInt new ++
      ", evicted " ++ Decimal.ofNat evictions ++ " entries"

/-- The log line of an event. All events are of use only when looking for a fault. -/
def logLine (name : String) (event : Event) : LogLine :=
  ⟨.debug, event.message name⟩

end Event

/-- What comes of an operation on a state of type `σ`: a reply, the state after it, and the events
in the order in which they happened. -/
structure Outcome (σ α : Type) where
  /-- What the caller gets. -/
  reply : α
  /-- The state after the operation. -/
  after : σ
  /-- What happened on the way. -/
  events : List Event := []

namespace Outcome

variable {σ α β : Type}

/-- Changes the reply only. -/
def map (f : α → β) (o : Outcome σ α) : Outcome σ β :=
  ⟨f o.reply, o.after, o.events⟩

@[simp]
theorem reply_map (f : α → β) (o : Outcome σ α) : (o.map f).reply = f o.reply :=
  rfl

@[simp]
theorem after_map (f : α → β) (o : Outcome σ α) : (o.map f).after = o.after :=
  rfl

@[simp]
theorem events_map (f : α → β) (o : Outcome σ α) : (o.map f).events = o.events :=
  rfl

end Outcome

end BudgetCache
