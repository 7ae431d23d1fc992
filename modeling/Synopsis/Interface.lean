import Synopsis.Arguments
import Synopsis.Config
import Synopsis.Grammar

/-!
# The interface of a program

An interface is a grammar together with its settings. It adds the built-in options that the grammar
does not declare itself and reads command lines: the arguments are cut into tokens, a built-in
option is answered, and otherwise the tokens are matched and the matches bound.
-/

namespace Synopsis

structure Interface where
  grammar : Grammar
  settings : Settings
  /-- The action of each name of the grammar. -/
  actions : List (String × Action)
  /-- The options of the grammar and the built-in ones. -/
  options : OptionTable

inductive Verdict where
  | bound (b : Bindings)
  | stopped (s : Stop)
  /-- A match has a name without an action. -/
  | unbound (name : String)

/-- A command line read to its end or to its first faulty argument. -/
structure Reading where
  cursor : Cursor
  verdict : Verdict

inductive Failure where
  /-- The settings make the reason an error. -/
  | raised (s : Stop)
  | unbound (name : String)
  /-- The help text cannot be read. -/
  | unreadable (e : HelpError)

def Failure.message : Failure → String
  | raised s => s.message
  | unbound name => name
  | unreadable e => e.message

namespace Interface

/-- The names of the built-in options in force. -/
def builtinNames (s : Settings) : NameSet :=
  let help := if s.autoHelp then s.helpNames else NameSet.empty
  let version := if s.version.isSome then s.versionNames else NameSet.empty
  help.union version

def builtinOption (name : String) : OptionDef :=
  if "--".toList.isPrefixOf name.toList then { long := some name } else { short := some name }

/-- The built-in options that a table lacks. -/
def builtins (table : OptionTable) (s : Settings) : Except HelpError (List OptionDef) :=
  ((builtinNames s).names.filter fun name => (table.lookup name).isEmpty).mapM fun name =>
    let o := builtinOption name
    if o.isNamed then .ok o else .error (.anywhere .formless)

/-- The interface of a grammar. -/
def make (g : Grammar) (s : Settings) : Except HelpError Interface := do
  let added ← builtins g.options s
  return ⟨g, s, g.pattern.actions, g.options.insertAll added⟩

def describe (i : Interface) : String :=
  "<Analyser of " ++ Text.quoted i.grammar.program ++ ">"

/-- How the interface reads arguments. -/
def conventions (i : Interface) : Conventions where
  options := i.options
  optionsFirst := i.settings.optionsFirst
  keepMarker := i.grammar.usesMarker
  guess := i.settings.fuzzyMatch
  threshold := i.settings.fuzzyThreshold

/-- The answer to a built-in option among the tokens, help before the version. -/
def builtinAnswer (i : Interface) (tokens : List Token) : Option Stop :=
  let names := (tokens.filterMap Token.option?).map OptionDef.name
  let asks (wanted : NameSet) : Bool := names.any (wanted.names.contains ·)
  if i.settings.autoHelp && asks i.settings.helpNames then some (.help i.grammar.source)
  else
    match i.settings.version with
    | some version => if asks i.settings.versionNames then some (.version version) else none
    | none => none

/-- Matches tokens with the grammar and binds the matches. -/
def bind (i : Interface) (tokens : List Token) : Verdict :=
  let result := Matching.run tokens i.grammar.pattern
  match result.matched with
  | none => .stopped (.mismatch (result.closest.filterMap fun k => tokens[k]?.map Token.shown))
  | some matched =>
    match Bindings.reduce matched i.actions with
    | .ok b => .bound b
    | .error name => .unbound name

/-- Reads a command line. -/
def process (i : Interface) (arguments : List String) : Reading :=
  match (Cursor.start arguments).tokenize i.conventions with
  | (cursor, some e) => ⟨cursor, .stopped (.input e)⟩
  | (cursor, none) =>
    match i.builtinAnswer cursor.tokens with
    | some s => ⟨cursor, .stopped s⟩
    | none => ⟨cursor, i.bind cursor.tokens⟩

/-- The arguments that a reason leaves unread or unmatched: from the faulty one on, or those that
the best attempt left. -/
def errorData (cursor : Cursor) : Stop → List String
  | .input _ => cursor.arguments.drop (cursor.position - 1)
  | .mismatch left => left
  | _ => []

/-- The arguments of the program. -/
def conclude (i : Interface) (r : Reading) : Except Failure Arguments :=
  match r.verdict with
  | .bound b => .ok ⟨i.grammar.program, r.cursor.arguments, true, b, none, [], none⟩
  | .unbound name => .error (.unbound name)
  | .stopped s =>
    if i.settings.raiseException && s.isFailure then .error (.raised s)
    else
      .ok ⟨i.grammar.program, r.cursor.arguments, false, [], some s, errorData r.cursor s,
        s.output?⟩

/-- Reads a command line into the arguments of the program. -/
def parse (i : Interface) (arguments : List String) : Except Failure Arguments :=
  i.conclude (i.process arguments)

end Interface

namespace Reading

/-- The answer to a built-in option, if that is what came of a command line. -/
def answer? (r : Reading) : Option String :=
  match r.verdict with
  | .stopped s => s.output?
  | _ => none

/-- The note on a command line of a program that was matched. -/
def trace? (r : Reading) (program : String) : Option String :=
  match r.verdict with
  | .stopped _ => none
  | _ =>
    let program := Text.quoted program
    let count := r.cursor.tokens.length
    some s!"{program} matched {count} token(s)"

end Reading

end Synopsis
