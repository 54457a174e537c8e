import BudgetCache.Script.Artifact
import BudgetCache.Script.Command
import BudgetCache.Text.Trim

/-!
# Sessions

A session runs the lines of a script against a cache of artifacts. Each command has a response of
one or more lines of text. Blank lines and remarks, which begin with a number sign, have none. A
line that is not a command is answered with what is wrong with it and leaves the cache as it was.
-/

namespace BudgetCache

/-- A cache of artifacts under the control of a script. -/
structure Session where
  /-- The cache. -/
  cache : Cache String Artifact

/-- What comes of one line. -/
structure Turn where
  /-- The response, if the line has one. -/
  response : Option String
  /-- The session after the line. -/
  after : Session
  /-- What the line left in the log. -/
  log : List LogLine

namespace Session

/-- The response to a command that only changes the cache. -/
def done : String :=
  "OK"

/-- The response to a question about an entry that is not there. -/
def nothing : String :=
  "(nil)"

/-- The response to a lookup. -/
def lookupResponse (found : Option Artifact) : String :=
  (found.map Artifact.display).getD nothing

/-- The response to the question for the oldest key. -/
def keyResponse (key : Option String) : String :=
  key.getD nothing

/-- Operates on the table of the session's cache. -/
def onTable {α : Type} (s : Session)
    (f : Table String Artifact → Outcome (Table String Artifact) α) : Outcome Session α :=
  match s with
  | ⟨cache⟩ =>
    let o := cache.onTable f
    ⟨o.reply, ⟨o.after⟩, o.events⟩

/-- Carries out a command. The reply is the response. -/
def perform (s : Session) : Command → Outcome Session String
  | .put key text cost => (s.onTable (·.put key ⟨text, cost⟩)).map fun _ => done
  | .get key => (s.onTable (·.get key)).map lookupResponse
  | .peek key => { reply := lookupResponse (s.cache.peek key), after := s }
  | .remove key => (s.onTable (·.remove key)).map lookupResponse
  | .flush (some key) => (s.onTable (·.erase key)).map fun _ => done
  | .flush none => (s.onTable (·.clear)).map fun _ => done
  | .limit limit => (s.onTable (·.setLimit limit)).map fun _ => done
  | .oldest => { reply := keyResponse s.cache.oldestKey?, after := s }
  | .ratio => { reply := s.cache.heading s.cache.name, after := s }
  | .dump => { reply := Text.trimEnd s.cache.dump, after := s }
  | .stats => { reply := s.cache.usage.json, after := s }

/-- Whether a trimmed line asks for nothing: it is empty or a remark. -/
def isSilent (text : String) : Bool :=
  match text.toList with
  | [] => true
  | c :: _ => c == '#'

/-- The warning about a trimmed line that is not a command. -/
def skipped (text : String) (defect : Defect) : LogLine :=
  ⟨.warn, "Skipping line " ++ Text.quoted text ++ ": " ++ defect.message⟩

/-- The response to a line that is not a command. -/
def complaint (defect : Defect) : String :=
  "error: " ++ defect.message

/-- Runs one line of a script. -/
def respond (s : Session) (line : String) : Turn :=
  let text := Text.trim line
  if isSilent text then { response := none, after := s, log := [] }
  else
    match Command.ofLine text with
    | .error defect =>
      { response := some (complaint defect), after := s, log := [skipped text defect] }
    | .ok command =>
      let name := s.cache.name
      let o := s.perform command
      { response := some o.reply, after := o.after, log := o.events.map (·.logLine name) }

@[simp]
theorem toTable_onTable {α : Type} (s : Session)
    (f : Table String Artifact → Outcome (Table String Artifact) α) :
    (s.onTable f).after.cache.toTable = (f s.cache.toTable).after :=
  rfl

@[simp]
theorem name_onTable {α : Type} (s : Session)
    (f : Table String Artifact → Outcome (Table String Artifact) α) :
    (s.onTable f).after.cache.name = s.cache.name :=
  rfl

end Session

end BudgetCache
