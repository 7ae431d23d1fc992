import Synopsis.Text.Quoted

/-!
# Option definitions

An option has a short form, a long form or both. Its canonical name is the long form if there is
one. An empty form counts as absent.
-/

namespace Synopsis

structure OptionDef where
  short : Option String := none
  long : Option String := none
  /-- How many values it takes; a flag takes none. -/
  arity : Int := 0
  default : Option String := none
  deriving DecidableEq, Hashable, Inhabited

namespace OptionDef

/-- The long form, unless it is absent or empty. -/
def long? (o : OptionDef) : Option String :=
  o.long.filter (· ≠ "")

/-- The short form, unless it is absent or empty. -/
def short? (o : OptionDef) : Option String :=
  o.short.filter (· ≠ "")

def name (o : OptionDef) : String :=
  (o.long?.or o.short?).getD ""

/-- The ways to write the option, the short one first. -/
def forms (o : OptionDef) : List String :=
  o.short?.toList ++ o.long?.toList

def isNamed (o : OptionDef) : Bool :=
  o.short?.isSome || o.long?.isSome

/-- The option is given with a value. -/
def takesValue (o : OptionDef) : Bool :=
  0 < o.arity

/-- A text between quotes, or the word for its absence. -/
def quotedOr : Option String → String
  | some s => Text.quoted s
  | none => "None"

def describe (o : OptionDef) : String :=
  let short := quotedOr o.short
  let long := quotedOr o.long
  let default := quotedOr o.default
  s!"Option({short}, {long}, {o.arity}, {default})"

end OptionDef

end Synopsis
