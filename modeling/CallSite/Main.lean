import CallSite.CommandLine

/-!
# The program

Reads the files that the command names, runs the command, and prints what it gives.
-/

open CallSite

/-- The content of a file, none if it cannot be read. -/
def readText (path : String) : IO (Option String) := do
  try
    return some (← IO.FS.readFile path)
  catch _ =>
    return none

def main (args : List String) : IO UInt32 := do
  let files :=
    match CommandLine.read args with
    | .ok command => command.files
    | .error _ => []
  let contents ← files.mapM fun path => return (path, ← readText path)
  let outcome := CommandLine.run args fun path => (contents.lookup path).join
  IO.print outcome.text
  outcome.errors.forM IO.eprintln
  return outcome.code
