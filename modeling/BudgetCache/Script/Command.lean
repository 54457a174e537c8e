import BudgetCache.Script.Quantity
import BudgetCache.Text.Words

/-!
# Commands

A command is one line of a script: a keyword, in any mixture of cases, and its arguments, all
separated by blank characters. A line that is not a command is refused for its first defect in a
fixed order: an unknown keyword, a missing argument, a number that cannot be read, and last of all
surplus words.
-/

namespace BudgetCache

/-- The words that begin a command. -/
inductive Keyword where
  | put | get | peek | remove | flush | limit | oldest | ratio | dump | stats
  deriving Repr, DecidableEq

namespace Keyword

/-- The keyword as it is written in messages. -/
def name : Keyword → String
  | put => "put"
  | get => "get"
  | peek => "peek"
  | remove => "remove"
  | flush => "flush"
  | limit => "limit"
  | oldest => "oldest"
  | ratio => "ratio"
  | dump => "dump"
  | stats => "stats"

/-- All keywords. -/
def all : List Keyword :=
  [put, get, peek, remove, flush, limit, oldest, ratio, dump, stats]

/-- The keyword that a word spells when the letters of ASCII are taken without regard to case.
Other letters have no second case here. -/
def ofWord? (word : String) : Option Keyword :=
  all.find? fun keyword => keyword.name.toList == word.toList.map Char.toLower

end Keyword

/-- The arguments that a command may take. -/
inductive Parameter where
  | key | text | cost | limit
  deriving Repr, DecidableEq

namespace Parameter

/-- The parameter as it is written in messages. -/
def name : Parameter → String
  | key => "key"
  | text => "text"
  | cost => "cost"
  | limit => "limit"

end Parameter

/-- What a script can ask for. -/
inductive Command where
  /-- Store an artifact under a key. -/
  | put (key text : String) (cost : Nat)
  /-- Look up a key and touch it. -/
  | get (key : String)
  /-- Look up a key without touching it. -/
  | peek (key : String)
  /-- Remove a key and show what it held. -/
  | remove (key : String)
  /-- Remove a key, or all keys if none is named. -/
  | flush (key : Option String)
  /-- Change the limit. -/
  | limit (limit : Int)
  /-- Show the key touched longest ago. -/
  | oldest
  /-- Show how full the cache is. -/
  | ratio
  /-- Show all entries. -/
  | dump
  /-- Show the usage statistics. -/
  | stats
  deriving Repr, DecidableEq

/-- Why a line is not a command. -/
inductive Defect where
  /-- The first word is no keyword; it is empty if the line has no word. -/
  | unknown (word : String)
  /-- A required argument is not there. -/
  | missing (keyword : Keyword) (argument : Parameter)
  /-- An argument that has to be a number in a certain range is not one. -/
  | notNumber (argument : Parameter) (word : String)
  /-- Words are left over. -/
  | surplus (keyword : Keyword)
  deriving Repr, DecidableEq

namespace Defect

/-- What is wrong, in words. -/
def message : Defect → String
  | unknown word => "Unknown command: " ++ word
  | missing keyword argument =>
    "Missing argument for " ++ keyword.name ++ ": " ++ argument.name
  | notNumber argument word => "Invalid number for " ++ argument.name ++ ": " ++ word
  | surplus keyword => "Too many arguments for " ++ keyword.name

end Defect

namespace Command

/-- The cost of an artifact that is put without one. -/
def defaultCost : Nat :=
  1

/-- The keyword of a command. -/
def keyword : Command → Keyword
  | put _ _ _ => .put
  | get _ => .get
  | peek _ => .peek
  | remove _ => .remove
  | flush _ => .flush
  | limit _ => .limit
  | oldest => .oldest
  | ratio => .ratio
  | dump => .dump
  | stats => .stats

/-- Reads the arguments of a keyword and tells which words are left over. -/
def ofArguments : Keyword → List String → Except Defect (Command × List String)
  | .put, [] => .error (.missing .put .key)
  | .put, [_] => .error (.missing .put .text)
  | .put, [key, text] => .ok (put key text defaultCost, [])
  | .put, key :: text :: word :: rest =>
    match Quantity.cost? word with
    | some cost => .ok (put key text cost, rest)
    | none => .error (.notNumber .cost word)
  | .get, [] => .error (.missing .get .key)
  | .get, key :: rest => .ok (get key, rest)
  | .peek, [] => .error (.missing .peek .key)
  | .peek, key :: rest => .ok (peek key, rest)
  | .remove, [] => .error (.missing .remove .key)
  | .remove, key :: rest => .ok (remove key, rest)
  | .flush, [] => .ok (flush none, [])
  | .flush, key :: rest => .ok (flush (some key), rest)
  | .limit, [] => .error (.missing .limit .limit)
  | .limit, word :: rest =>
    match Quantity.limit? word with
    | some z => .ok (limit z, rest)
    | none => .error (.notNumber .limit word)
  | .oldest, rest => .ok (oldest, rest)
  | .ratio, rest => .ok (ratio, rest)
  | .dump, rest => .ok (dump, rest)
  | .stats, rest => .ok (stats, rest)

/-- Reads the words of a line as a command. -/
def ofWords : List String → Except Defect Command
  | [] => .error (.unknown "")
  | word :: arguments =>
    match Keyword.ofWord? word with
    | none => .error (.unknown word)
    | some keyword =>
      match ofArguments keyword arguments with
      | .error defect => .error defect
      | .ok (command, []) => .ok command
      | .ok (_, _ :: _) => .error (.surplus keyword)

/-- Reads a line as a command. -/
def ofLine (line : String) : Except Defect Command :=
  ofWords (Text.words line)

end Command

end BudgetCache
