/-!
# What can be wrong with a help text

`Fault` lists the causes and `Fault.text` words them. A `HelpError` adds the place: the line counts
from one and the column from zero, and a cause without a column is reported at column zero.
-/

namespace Synopsis

inductive Fault where
  /-- No line holds the usage label. -/
  | usageMissing
  /-- More than one line holds the usage label. -/
  | usageRepeated
  /-- Nothing follows the usage label. -/
  | programMissing
  /-- A usage line stands apart from the usage section. -/
  | usageInterrupted (line : String)
  /-- A flag declares a default value. -/
  | defaultWithoutValue (form : String)
  /-- A bracket is not closed. -/
  | unmatched (opening : String)
  /-- A bracket is closed that was not opened. -/
  | unexpected (lexeme : String)
  /-- An ellipsis follows nothing. -/
  | danglingEllipsis
  /-- A flag is written with a value. -/
  | valueRefused (form : String)
  /-- An option with a value is written without one. -/
  | valueMissing (form : String)
  /-- Several options have the same short form. -/
  | shortAmbiguous (form : String) (count : Nat)
  /-- The usage label is spelled with a letter that lower case does not restore. -/
  | labelUnreadable
  /-- An option has neither a short nor a long form. -/
  | formless
  deriving DecidableEq

def Fault.text : Fault → String
  | usageMissing => "\"usage:\" (case-insensitive) not found."
  | usageRepeated => "More than one \"usage:\" (case-insensitive)."
  | programMissing => "\"usage:\" section has no program name."
  | usageInterrupted line =>
    s!"Usage lines must directly follow \"usage:\", found \"{line}\" after a blank line."
  | defaultWithoutValue form => s!"{form} declares a default value but takes no argument."
  | unmatched opening => s!"Unmatched \"{opening}\"."
  | unexpected lexeme => s!"Unexpected ending: \"{lexeme}\"."
  | danglingEllipsis => "\"...\" must follow an element."
  | valueRefused form => s!"{form} must not have an argument."
  | valueMissing form => s!"{form} requires an argument."
  | shortAmbiguous form count => s!"{form} is specified ambiguously {count} times."
  | labelUnreadable => "substring not found"
  | formless => "an option needs a short or a long form"

/-- The fault is one that help texts are checked for. The others are met by accident. -/
def Fault.isChecked : Fault → Bool
  | labelUnreadable => false
  | formless => false
  | _ => true

structure HelpError where
  fault : Fault
  line : Option Int
  column : Option Nat
  deriving DecidableEq

namespace HelpError

def anywhere (fault : Fault) : HelpError :=
  ⟨fault, none, none⟩

def onLine (fault : Fault) (line : Int) : HelpError :=
  ⟨fault, some line, none⟩

def inLine (fault : Fault) (line : Int) (column : Nat) : HelpError :=
  ⟨fault, some line, some column⟩

def message (e : HelpError) : String :=
  match e.line with
  | none => e.fault.text
  | some line =>
    let column := e.column.getD 0
    s!"{e.fault.text} (line {line}, column {column})"

end HelpError

end Synopsis
