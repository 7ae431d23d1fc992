import Synopsis.Tool

/-!
# The tool as a program

Reading files and printing reports; `Synopsis.Tool` decides all else.
-/

namespace Synopsis.Tool

/-- The contents of a file, if there is such a file. -/
def readText (file : String) : IO (Option String) := do
  if file = "-" then return some (← (← IO.getStdin).readToEnd)
  try
    return some (← IO.FS.readFile file)
  catch
    | .noFileOrDirectory .. => return none
    | e => throw e

/-- Prints a report and gives its code. -/
def print (r : Report) : IO UInt32 := do
  for warning in r.warnings do
    IO.eprintln warning
  IO.print r.output
  IO.eprint r.errors
  return UInt32.ofNat r.code

def report (arguments : List String) : IO (Except RunError Report) := do
  match request arguments with
  | .error e => return .error e
  | .ok (.error done) => return .ok done
  | .ok (.ok r) =>
    match ← readText r.file with
    | some text => return answer r text
    | none => return .ok (missing r)

end Synopsis.Tool

def main (arguments : List String) : IO UInt32 := do
  match ← Synopsis.Tool.report arguments with
  | .ok r => Synopsis.Tool.print r
  | .error e =>
    IO.eprintln e.message
    return 1
