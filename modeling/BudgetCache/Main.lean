import BudgetCache.Script.Replay

/-!
# The command line

Reads the environment and the script, runs the program on them, and prints the responses to the
standard output and the diagnostics to the standard error. The exit code tells whether the whole
script was run.
-/

namespace BudgetCache

/-- The bytes of an environment variable. -/
def environmentBytes? (name : String) : IO (Option (List UInt8)) := do
  return (← IO.getEnv name).map Text.encode

/-- Opens a script file and reads all of it. -/
def readSource? (path : String) : IO (Option Source) := do
  match ← (IO.FS.Handle.mk path .read).toBaseIO with
  | .error _ => return none
  | .ok file =>
    match ← file.readBinToEnd.toBaseIO with
    | .error _ => return some .unreadable
    | .ok bytes => return some (.content bytes.toList)

/-- Prints what a run leaves behind and tells the exit code. -/
def printReport (r : Report) : IO UInt32 := do
  let out ← IO.getStdout
  let err ← IO.getStderr
  out.putStr r.output
  out.flush
  err.putStr r.diagnostics
  return UInt32.ofNat r.exitCode

end BudgetCache

open BudgetCache in
/-- Runs the script named by the first argument, or the one on the standard input. -/
def main (arguments : List String) : IO UInt32 := do
  let env : Environment :=
    { spaceLimit := ← environmentBytes? "SPACE_LIMIT"
      cacheName := ← environmentBytes? "CACHE_NAME" }
  match arguments with
  | [] =>
    let input ← (← IO.getStdin).readBinToEnd
    printReport (Replay.program env [] input.toList fun _ => none)
  | path :: _ =>
    let source ← readSource? path
    printReport (Replay.program env arguments [] fun _ => source)
