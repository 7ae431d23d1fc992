import Synopsis.Cursor
import Synopsis.Text.CommandText

/-!
# Command lines as they are given

A program is given its arguments as a list or as one text. Without either it takes those that its
process was started with.
-/

namespace Synopsis

inductive CommandLine where
  | own
  | text (line : String)
  | list (arguments : List String)

/-- The arguments; `own` are those of the process. -/
def CommandLine.arguments (own : List String) : CommandLine → List String
  | .own => own
  | text line => Text.commandArguments line
  | list arguments => arguments

def Cursor.build (own : List String) (line : CommandLine) : Cursor :=
  start (line.arguments own)

end Synopsis
