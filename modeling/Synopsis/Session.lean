import Synopsis.CommandLine
import Synopsis.GrammarCache
import Synopsis.Interface
import Synopsis.Namespaces
import Synopsis.Output
import Synopsis.Recency

/-!
# Sessions

A session declares programs by their help texts and reads command lines for them. A program takes
its settings from its own configuration and from that of its namespace, once and for all. Its
interface is kept until it is forgotten and made again when it is needed, from the same help text
and settings. A built-in answer is sent to the output before the arguments are handed out.
-/

namespace Synopsis

structure Program where
  /-- Tells the programs of a session apart. -/
  number : Nat
  source : String
  /-- The name of its namespace. -/
  home : String
  settings : Settings
  compiled : Compiled

namespace Program

def name (p : Program) : String :=
  p.compiled.grammar.program

def describe (p : Program) : String :=
  "Docopt::" ++ p.name ++ "(namespace=" ++ Text.quoted p.home ++ ")"

end Program

inductive DeclareError where
  /-- A configuration gives no names for the built-in option of this key. -/
  | unnamed (key : String)
  | help (e : HelpError)

inductive RunError where
  | declare (e : DeclareError)
  | parse (f : Failure)

def RunError.message : RunError → String
  | declare (.unnamed key) => key
  | declare (.help e) => e.message
  | parse f => f.message

abbrev Grammars := GrammarCache (Recency String Compiled)

structure Session where
  cache : Grammars := .initial
  namespaces : Namespaces := .initial
  output : Output := {}
  /-- The interfaces at hand, by the numbers of their programs. -/
  interfaces : List (Nat × Interface) := []
  /-- How many programs were declared so far. -/
  declared : Nat := 0

namespace Session

/-- The namespaces once the one meant for a program is known, and that one. Without any it is the
default one; so it is for an empty name. -/
def homeOf (ns : Namespaces) (r : Option NamespaceRef) : Namespaces × Namespace :=
  match r with
  | none => (ns, ns.default)
  | some (.named "") => (ns, ns.default)
  | some r => (ns.resolve r, (ns.resolve r).lookup r.name)

/-- Makes the interface of a program and keeps it. -/
def analyse (s : Session) (number : Nat) (source : String) (settings : Settings) :
    Session × Except HelpError (Compiled × Interface) :=
  match s.cache.compile source with
  | (cache, .error e) => ({ s with cache }, .error e)
  | (cache, .ok compiled) =>
    match Interface.make compiled.grammar settings with
    | .error e => ({ s with cache }, .error e)
    | .ok i =>
      ({ s with cache, interfaces := Keyed.put Prod.fst (number, i) s.interfaces },
        .ok (compiled, i))

def declare (s : Session) (source : String) (config : Config) (r : Option NamespaceRef) :
    Session × Except DeclareError Program :=
  let (namespaces, home) := homeOf s.namespaces r
  let s := { s with namespaces }
  match config.merge home.config with
  | .error key => (s, .error (.unnamed key))
  | .ok settings =>
    let number := s.declared
    match { s with declared := number + 1 }.analyse number source settings with
    | (s, .error e) => (s, .error (.help e))
    | (s, .ok (compiled, _)) => (s, .ok ⟨number, source, home.name, settings, compiled⟩)

/-- The interface of a program, made again if it was forgotten. -/
def interface (s : Session) (p : Program) : Session × Except HelpError Interface :=
  match Keyed.get? Prod.fst p.number s.interfaces with
  | some (_, i) => (s, .ok i)
  | none =>
    match s.analyse p.number p.source p.settings with
    | (s, .error e) => (s, .error e)
    | (s, .ok (_, i)) => (s, .ok i)

def forget (s : Session) (p : Program) : Session :=
  { s with interfaces := s.interfaces.filter (·.1 ≠ p.number) }

/-- Sends a text of a program. -/
def send (s : Session) (text : String) (program : Option String) : Session :=
  { s with output := (s.output.send text program).1 }

/-- Reads a command line for a program and sends the built-in answer, if there is one. -/
def read (s : Session) (p : Program) (arguments : List String) :
    Session × Except Failure (Interface × Reading) :=
  match s.interface p with
  | (s, .error e) => (s, .error (.unreadable e))
  | (s, .ok i) =>
    let reading := i.process arguments
    match reading.answer? with
    | some text => (s.send text (some p.name), .ok (i, reading))
    | none => (s, .ok (i, reading))

/-- The arguments that a program gets from a command line. -/
def parse (s : Session) (p : Program) (arguments : List String) :
    Session × Except Failure Arguments :=
  match s.read p arguments with
  | (s, .error f) => (s, .error f)
  | (s, .ok (i, reading)) => (s, i.conclude reading)

/-- The arguments that a program gets from a command line in any form. -/
def parseLine (s : Session) (p : Program) (own : List String) (line : CommandLine) :
    Session × Except Failure Arguments :=
  s.parse p (line.arguments own)

/-- The configuration that the namespace of a program has by now. -/
def homeConfig (s : Session) (p : Program) : Config :=
  (s.namespaces.lookup p.home).config

end Session

end Synopsis
