import Synopsis.OptionDef
import Synopsis.Value

/-!
# Tokens of a command line

An argument of the command line is a plain word, the marker that ends the options, or an option
with its value if it takes one.
-/

namespace Synopsis

/-- A token of a command line, with the argument it was read from. -/
inductive Token where
  | plain (raw : String)
  | marker (raw : String)
  /-- An option; the value is absent for a flag. -/
  | option (definition : OptionDef) (raw : String) (value : Option String)
  deriving DecidableEq

namespace Token

def raw : Token → String
  | plain raw => raw
  | marker raw => raw
  | option _ raw _ => raw

def option? : Token → Option OptionDef
  | option o _ _ => some o
  | _ => none

def isPositional (t : Token) : Bool :=
  t.option?.isNone

/-- The value that matching the token gives. -/
def value : Token → Value
  | plain raw => .text raw
  | marker raw => .text raw
  | option _ _ none => .flag true
  | option _ _ (some v) => .text v

/-- The token as messages show it. -/
def shown : Token → String
  | option o _ (some v) => o.name ++ "=" ++ v
  | t => t.raw

end Token

end Synopsis
