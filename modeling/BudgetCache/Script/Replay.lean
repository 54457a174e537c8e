import BudgetCache.Script.Settings
import BudgetCache.Text.Lines

/-!
# Replaying scripts

The program runs a script from the first line to the last in one session. The script comes from a
file named by the first argument or, without arguments, from the standard input. Responses go to the
standard output, one after the other, and progress is noted in the log. A script that cannot be
opened ends the program at once. A line that cannot be read, because it is not UTF-8 or the file
gives no bytes, ends it there; the responses to the lines before it stay.
-/

namespace BudgetCache

/-- What comes of the lines of a script. -/
structure Transcript where
  /-- The responses, in order. -/
  responses : List String
  /-- The session after the last line that was run. -/
  after : Session
  /-- What the lines left in the log. -/
  log : List LogLine
  /-- Whether every line was run. -/
  complete : Bool

namespace Session

/-- Runs lines of bytes up to the first that is not UTF-8. -/
def replay (s : Session) : List (List UInt8) → Transcript
  | [] => { responses := [], after := s, log := [], complete := true }
  | bytes :: lines =>
    match Text.decode? bytes with
    | none => { responses := [], after := s, log := [], complete := false }
    | some line =>
      let turn := s.respond line
      let rest := turn.after.replay lines
      { rest with responses := turn.response.toList ++ rest.responses, log := turn.log ++ rest.log }

end Session

/-- What is found behind the name of a script file that can be opened. -/
inductive Source where
  /-- The bytes of the file. -/
  | content (bytes : List UInt8)
  /-- Something that gives no bytes, such as a directory. -/
  | unreadable

/-- Why the program failed. -/
inductive Failure where
  /-- The script file cannot be opened. -/
  | cannotOpen (path : String)
  /-- A line of the script cannot be read. -/
  | cannotReadLine
  deriving Repr, DecidableEq

namespace Failure

/-- What went wrong, in words. -/
def message : Failure → String
  | cannotOpen path => "Failed to open " ++ path
  | cannotReadLine => "Failed to read script line"

end Failure

/-- What a run of the program leaves behind. -/
structure Report where
  /-- The text on the standard output. -/
  output : String
  /-- The lines of the log, in order. -/
  log : List LogLine
  /-- Why the program failed, if it did. -/
  failure : Option Failure

namespace Report

/-- The exit code: zero for success. -/
def exitCode (r : Report) : Nat :=
  if r.failure.isSome then 1 else 0

/-- The text on the standard error: the log, without the lines that only help to find faults, and
why the program failed. -/
def diagnostics (r : Report) : String :=
  let shown := (r.log.filter fun line => line.severity != .debug).map LogLine.render
  let error := r.failure.toList.map fun failure => "Error: " ++ failure.message
  String.join ((shown ++ error).map (· ++ "\n"))

/-- The messages of one severity. -/
def messages (r : Report) (severity : Severity) : List String :=
  (r.log.filter fun line => line.severity == severity).map (·.message)

end Report

namespace Replay

/-- The note on the settings in force. -/
def configured (settings : Settings) : LogLine :=
  ⟨.info, "Configuration loaded: space_limit=" ++ Decimal.ofInt settings.limit ++ ", cache_name=" ++
    settings.name⟩

/-- The note on the file that the script comes from. -/
def opened (path : String) : LogLine :=
  ⟨.info, "Replaying script " ++ path⟩

/-- The note at the end of a script, on the number of responses and the final state. -/
def completed (commands : Nat) (usage : Usage) : LogLine :=
  ⟨.info, "Replay complete: " ++ Decimal.ofNat commands ++ " commands, " ++
    Decimal.ofNat usage.entries ++ " entries, " ++ Decimal.ofNat usage.evictions ++
    " evictions, hit rate " ++ (Decimal.FloatValue.ofFloat usage.hitRate).fixed 2⟩

/-- The responses as text, each ended by a line feed. -/
def output (responses : List String) : String :=
  String.join (responses.map (· ++ "\n"))

/-- Runs a script in a session. -/
def ofSource (s : Session) : Source → Report
  | .unreadable => { output := "", log := [], failure := some .cannotReadLine }
  | .content bytes =>
    let t := s.replay (Text.linesOf bytes)
    if t.complete then
      { output := output t.responses
        log := t.log ++ [completed t.responses.length t.after.cache.usage]
        failure := none }
    else
      { output := output t.responses, log := t.log, failure := some .cannotReadLine }

/-- Runs the program. The function `file?` tells what is behind a name, if it can be opened. -/
def program (env : Environment) (arguments : List String) (input : List UInt8)
    (file? : String → Option Source) : Report :=
  let settings := Settings.ofEnvironment env
  let s := Session.ofSettings settings
  match arguments with
  | [] =>
    let r := ofSource s (.content input)
    { r with log := configured settings :: r.log }
  | path :: _ =>
    match file? path with
    | none => { output := "", log := [configured settings], failure := some (.cannotOpen path) }
    | some source =>
      let r := ofSource s source
      { r with log := configured settings :: opened path :: r.log }

end Replay

end BudgetCache
