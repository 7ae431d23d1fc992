import Synopsis.Description
import Synopsis.Pattern.Reader
import Synopsis.Usage

/-!
# Grammars

A grammar is what a help text says about the command lines of its program: the pattern of all usage
lines and the options, declared in an options section or met in a usage line. Reading a help text
may also show usage lines that repeat earlier ones; these are reported even if a later line is
ill-formed.
-/

namespace Synopsis

structure Grammar where
  /-- The help text. -/
  source : String
  /-- The usage section as it stands in the help text. -/
  usage : String
  program : String
  /-- The usage lines, the earlier ones first. -/
  pattern : Pattern
  /-- All options. -/
  options : OptionTable
  /-- The options of the options sections. -/
  declared : OptionTable
  deriving DecidableEq

namespace Grammar

/-- Some usage line mentions the marker after which every argument is positional. -/
def usesMarker (g : Grammar) : Bool :=
  g.pattern.leaves.any (· == .command "--")

def lineCount (g : Grammar) : Nat :=
  match g.pattern with
  | .either lines => lines.length
  | _ => 1

/-- The note on a compiled grammar. -/
def trace (g : Grammar) : String :=
  let program := Text.quoted g.program
  let pattern := g.pattern.describe
  s!"compiled {g.lineCount} usage line(s) for {program}: {pattern}"

end Grammar

/-- The lines of a usage section read so far, and the options known at the end or the error that
stopped the reading. -/
structure LineReadout where
  lines : List Pattern
  result : Except HelpError OptionTable

/-- Reads usage lines one after the other. -/
def readLines (declared : OptionTable) : OptionTable → List (List Lexeme) → LineReadout
  | table, [] => ⟨[], .ok table⟩
  | table, s :: rest =>
    match Pattern.readLine declared table s with
    | .error e => ⟨[], .error e⟩
    | .ok (line, table) =>
      let more := readLines declared table rest
      ⟨line :: more.lines, more.result⟩

/-- A usage line that repeats an earlier one, both counted from one. -/
structure Repetition where
  line : Nat
  earlier : Nat
  deriving DecidableEq

namespace Repetition

def message (r : Repetition) : String :=
  s!"Usage line {r.line} repeats usage line {r.earlier}; the earlier line always wins."

/-- The lines that repeat one of the lines seen before or one another. -/
def find (seen : List Pattern) : List Pattern → List Repetition
  | [] => []
  | p :: rest =>
    let more := find (seen ++ [p]) rest
    match seen.findIdx? (· == p) with
    | some i => ⟨seen.length + 1, i + 1⟩ :: more
    | none => more

end Repetition

structure Compilation where
  /-- The usage lines read before any error. -/
  lines : List Pattern
  grammar : Except HelpError Grammar

namespace Compilation

/-- A help text that shows a fault before its usage lines are read. -/
def failed (e : HelpError) : Compilation :=
  ⟨[], .error e⟩

def ofHelp (source : String) : Compilation :=
  match Usage.read source, OptionTable.read source with
  | .error e, _ => failed e
  | .ok _, .error e => failed e
  | .ok usage, .ok declared =>
    let readout := readLines declared declared usage.lines
    ⟨readout.lines, readout.result.map fun options =>
      ⟨source, usage.body.text, usage.program.text, .either readout.lines, options, declared⟩⟩

/-- The usage lines that repeat earlier ones. -/
def repetitions (c : Compilation) : List Repetition :=
  Repetition.find [] c.lines

end Compilation

def Grammar.ofHelp (source : String) : Except HelpError Grammar :=
  (Compilation.ofHelp source).grammar

end Synopsis
