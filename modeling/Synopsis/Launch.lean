import Synopsis.Decimal.Shortest
import Synopsis.Session
import Synopsis.Text.Blank

/-!
# Launching a program

A program that is launched runs with its arguments or exits: with success if it was asked for help
or for its version, which is printed, and otherwise with a message and the usage.
-/

namespace Synopsis

structure Exit where
  message : String
  usage : String
  /-- What the program reports to its caller: a number, or a text, which counts as a failure. -/
  code : Value

namespace Exit

/-- The message and the usage as one text, if there is any. -/
def note (message usage : String) : Value :=
  let text := Text.strip (message ++ "\n" ++ usage)
  if text.isEmpty then .absent else .text text

/-- An exit with the given code, or with its texts for the code. -/
def make (message usage : String) (code : Value) : Exit :=
  match code with
  | .absent => ⟨message, usage, note message usage⟩
  | code => ⟨message, usage, code⟩

def success : Exit :=
  make "" "" (.count 0)

end Exit

/-- A version, as a text or as a value that is written out. -/
inductive Version where
  | text (s : String)
  | flag (b : Bool)
  | count (n : Int)
  | decimal (x : Float)

def Version.shown : Version → String
  | text s => s
  | flag b => (Value.flag b).describe
  | count n => toString n
  | decimal x => Decimal.text x

structure Launch where
  /-- An option for help is answered with the help text. -/
  help : Bool := true
  /-- What answers an option for the version. -/
  version : Option Version := none
  optionsFirst : Bool := false

namespace Launch

def config (l : Launch) : Config where
  optionsFirst := some l.optionsFirst
  autoHelp := some l.help
  version := some (l.version.map Version.shown)
  raiseException := some false

/-- The arguments to run with, or the exit. -/
def conclude (source : String) (a : Arguments) : Except HelpError (Except Exit Arguments) :=
  match a.stop with
  | none => .ok (.ok a)
  | some stop =>
    if stop.isFailure then
      (Usage.printable source).map fun usage => .error (Exit.make stop.message usage .absent)
    else .ok (.error Exit.success)

/-- Launches a program, and tells what is printed on the way. -/
def run (l : Launch) (source : String) (own : List String) (line : CommandLine) :
    Except RunError (String × Except Exit Arguments) :=
  match ({} : Session).declare source l.config none with
  | (_, .error e) => .error (.declare e)
  | (s, .ok p) =>
    match s.parseLine p own line with
    | (_, .error f) => .error (.parse f)
    | (s, .ok a) =>
      match conclude source a with
      | .error e => .error (.declare (.help e))
      | .ok outcome => .ok (s.output.printed, outcome)

end Launch

end Synopsis
