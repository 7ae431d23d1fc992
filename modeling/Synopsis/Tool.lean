import Synopsis.Json
import Synopsis.Session
import Synopsis.Text.Newline

/-!
# The command line tool

The tool reads a help text from a file and a command line from its own, and prints the bindings.
Its own command line is read like any other one, by the help text below. `Tool.request` reads it,
and `Tool.answer` takes the contents of the file.
-/

namespace Synopsis.Tool

def help : String :=
  "Parse a command line against a usage text and print the bindings as JSON.\n" ++
  "\n" ++
  "Usage:\n" ++
  "  docopt [options] <file> [--] [<argv>...]\n" ++
  "\n" ++
  "Options:\n" ++
  "  --options-first  Treat every argument after the first positional one as positional.\n" ++
  "  --no-help        Do not handle -h and --help in <argv>.\n" ++
  "  --version=<v>    Version text printed for --version in <argv>.\n" ++
  "  --debug          Log debug traces to stderr.\n" ++
  "  -h --help        Show this screen.\n"

structure Report where
  /-- 0 for success, 1 for arguments that do not fit, 2 for an unusable help text. -/
  code : Nat
  output : String := ""
  errors : String := ""
  warnings : List String := []

structure Request where
  /-- The file with the help text; a dash means the standard input. -/
  file : String
  /-- The command line to read. -/
  arguments : List String
  config : Config
  /-- Notes are written along. -/
  debug : Bool
  /-- The session in which the tool read its own command line. -/
  session : Session

def line (text : String) : String :=
  text ++ "\n"

def note (text : String) : String :=
  line ("arclet.docopt: " ++ text)

/-- How the tool reads its own command line. -/
def ownConfig : Config where
  optionsFirst := some true
  raiseException := some false

/-- The request that bindings of the tool's own command line make. -/
def requestOf (b : Bindings) (session : Session) : Request where
  file := ((b.query "<file>" .absent).text?).getD ""
  arguments := (b.query "<argv>" .absent).texts
  config :=
    { optionsFirst := some (b.query "--options-first" .absent).isSet
      autoHelp := some (!(b.query "--no-help" .absent).isSet)
      version := some (b.query "--version" .absent).text?
      raiseException := some false }
  debug := (b.query "--debug" .absent).isSet
  session

/-- Reads the tool's own command line. There is nothing more to do if it does not fit or asks for
help. -/
def request (arguments : List String) : Except RunError (Except Report Request) :=
  match ({} : Session).declare help ownConfig none with
  | (_, .error e) => .error (.declare e)
  | (s, .ok tool) =>
    match s.parse tool arguments with
    | (_, .error f) => .error (.parse f)
    | (s, .ok a) =>
      match a.stop with
      | none => .ok (.ok (requestOf a.bindings s))
      | some stop =>
        let output := s.output.printed
        if stop.isFailure then .ok (.error { code := 1, output, errors := line stop.message })
        else .ok (.error { code := 0, output })

def missing (r : Request) : Report where
  code := 2
  errors := line ("Usage file \"" ++ r.file ++ "\" not found.")

/-- The note on how the grammar of a help text was got. -/
def grammarNote (cache : Grammars) (source : String) (p : Program) : String :=
  note (if cache.holds source then "grammar cache hit" else p.compiled.grammar.trace)

/-- The warnings that reading a help text gives. -/
def warnings (cache : Grammars) (source : String) : List String :=
  if cache.holds source then []
  else (Compilation.ofHelp source).repetitions.map Repetition.message

/-- The report on a command line that was read. -/
def conclude (source : String) (a : Arguments) : Except HelpError Report :=
  match a.stop with
  | none => .ok { code := 0, output := line (Json.ofBindings a.bindings) }
  | some stop =>
    if stop.isFailure then
      (Usage.printable source).map fun usage =>
        { code := 1, errors := line stop.message ++ line usage }
    else .ok { code := 0 }

/-- Reads the requested command line by the help text. -/
def answer (r : Request) (text : String) : Except RunError Report :=
  let source := Text.unifyNewlines text
  let cache := r.session.cache
  let warnings := warnings cache source
  match r.session.declare source r.config none with
  | (_, .error (.help e)) =>
    if e.fault.isChecked then .ok { code := 2, errors := line e.message, warnings }
    else .error (.declare (.help e))
  | (_, .error e) => .error (.declare e)
  | (s, .ok p) =>
    match s.read p r.arguments with
    | (_, .error f) => .error (.parse f)
    | (s, .ok (i, reading)) =>
      match i.conclude reading with
      | .error f => .error (.parse f)
      | .ok a =>
        match conclude source a with
        | .error e => .error (.declare (.help e))
        | .ok report =>
          let notes :=
            if r.debug then
              grammarNote cache source p ++ ((reading.trace? p.name).map note).getD ""
            else ""
          .ok { report with
            output := s.output.printed ++ report.output
            errors := notes ++ report.errors
            warnings }

end Synopsis.Tool
