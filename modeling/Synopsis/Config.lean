import Synopsis.OptionTable

/-!
# Configuration

A configuration leaves open what it does not set. Two are merged into settings: the first one goes
before the second, and what neither sets has a default. The names of the built-in options count as
set when they differ from the default ones.
-/

namespace Synopsis

structure NameSet where
  names : List String
  deriving DecidableEq

namespace NameSet

def insertName (name : String) : List String → List String
  | [] => [name]
  | s :: rest =>
    if name = s then s :: rest
    else if name < s then name :: s :: rest
    else s :: insertName name rest

def ofList (names : List String) : NameSet :=
  ⟨names.foldr insertName []⟩

def union (s t : NameSet) : NameSet :=
  ofList (s.names ++ t.names)

def empty : NameSet := ⟨[]⟩

end NameSet

inductive Builtin where
  | help
  | version
  deriving DecidableEq

/-- The key under which a configuration holds the names of a built-in option. -/
def Builtin.key : Builtin → String
  | help => "help"
  | version => "version"

def Builtin.defaultNames : Builtin → NameSet
  | help => NameSet.ofList ["-h", "--help"]
  | version => NameSet.ofList ["--version"]

/-- A configuration, what it leaves open being absent. -/
structure Config where
  /-- All arguments after the first plain one are plain. -/
  optionsFirst : Option Bool := none
  /-- An option for help is answered with the help text. -/
  autoHelp : Option Bool := none
  /-- The text that answers an option for the version; it may be set to nothing. -/
  version : Option (Option String) := none
  /-- A command line that cannot be read is an error. -/
  raiseException : Option Bool := none
  /-- An unknown long option is answered with the one most like it. -/
  fuzzyMatch : Option Bool := none
  /-- How much alike that one must be. -/
  fuzzyThreshold : Option Float := none
  helpNames : Option NameSet := some (Builtin.defaultNames .help)
  versionNames : Option NameSet := some (Builtin.defaultNames .version)
  /-- Further entries, which are kept as they are. -/
  extra : List (String × String) := []

/-- A configuration that leaves nothing open. -/
structure Settings where
  optionsFirst : Bool
  autoHelp : Bool
  version : Option String
  raiseException : Bool
  fuzzyMatch : Bool
  fuzzyThreshold : Float
  helpNames : NameSet
  versionNames : NameSet
  extra : List (String × String)

namespace Config

def names (c : Config) : Builtin → Option NameSet
  | .help => c.helpNames
  | .version => c.versionNames

/-- The names of a built-in option after merging. A configuration that is asked for names it does
not hold is an error. -/
def mergeNames (c other : Config) (b : Builtin) : Except String NameSet :=
  match c.names b with
  | none => .error b.key
  | some own =>
    if own ≠ b.defaultNames then .ok own
    else
      match other.names b with
      | none => .error b.key
      | some names => .ok names

/-- What the first configuration sets, else what the second sets, else the default. -/
def choose {α : Type} (own other : Option α) (default : α) : α :=
  (own.or other).getD default

/-- Two configurations merged. The error is the key of missing names. -/
def merge (c other : Config) : Except String Settings := do
  let helpNames ← c.mergeNames other .help
  let versionNames ← c.mergeNames other .version
  return {
    optionsFirst := choose c.optionsFirst other.optionsFirst false
    autoHelp := choose c.autoHelp other.autoHelp true
    version := choose c.version other.version none
    raiseException := choose c.raiseException other.raiseException false
    fuzzyMatch := choose c.fuzzyMatch other.fuzzyMatch false
    fuzzyThreshold := choose c.fuzzyThreshold other.fuzzyThreshold 0.6
    helpNames
    versionNames
    extra := Keyed.putAll Prod.fst c.extra other.extra }

end Config

end Synopsis
