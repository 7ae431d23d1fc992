import Synopsis.Fault
import Synopsis.OptionTable
import Synopsis.Section
import Synopsis.Text.Cut

/-!
# Options sections

An entry of an options section starts with the forms of an option, each with a placeholder if the
option takes a value; two spaces end the forms, and the rest is prose, in which a default value may
be declared in brackets. `OptionTable.read` collects the entries of all options sections.
-/

namespace Synopsis

namespace Description

structure Forms where
  short : Option String := none
  long : Option String := none
  /-- There is a placeholder. -/
  valued : Bool := false

/-- The forms with one more word taken in. A later word of a kind prevails. -/
def Forms.add (f : Forms) (word : List Char) : Forms :=
  match word with
  | '-' :: '-' :: _ => { f with long := some (String.ofList word) }
  | '-' :: _ => { f with short := some (String.ofList word) }
  | _ => { f with valued := true }

/-- A comma or an equals sign parts words as a space does. -/
def partWords (c : Char) : Char :=
  if c = ',' ∨ c = '=' then ' ' else c

/-- The forms named at the start of an entry. -/
def forms (s : List Char) : Forms :=
  (Text.words (s.map partWords)).foldl Forms.add {}

/-- The text before the last closing bracket of the line. -/
def throughBracket? : List Char → Option (List Char)
  | [] => none
  | c :: r =>
    if c = '\n' then none
    else
      match throughBracket? r with
      | some inside => some (c :: inside)
      | none => if c = ']' then some [] else none

/-- How a default value is introduced, in any case. -/
def defaultLabel : List Char := "[default: ".toList

/-- The first default value declared. -/
def default? : List Char → Option (List Char)
  | [] => none
  | c :: r =>
    match (Text.afterLetters? defaultLabel (c :: r)).bind throughBracket? with
    | some value => some value
    | none => default? r

/-- The option that an entry describes. The line is where the entry starts, if it is known. -/
def read (entry : List Char) (line : Option Int) : Except HelpError OptionDef :=
  let (named, prose) := (Text.cut? [' ', ' '] (Text.trim entry)).getD (Text.trim entry, [])
  let f := forms named
  let value := default? prose
  if value.isSome && !f.valued then
    .error ⟨.defaultWithoutValue ((f.long.or f.short).getD "None"), line, none⟩
  else
    let o : OptionDef := ⟨f.short, f.long, if f.valued then 1 else 0, value.map String.ofList⟩
    if o.isNamed then .ok o else .error (.anywhere .formless)

/-- A line with a dash as its first character that is no blank starts an entry. -/
def startsEntry (line : List Char) : Bool :=
  (Text.trimLeft line).head? == some '-'

/-- The lines before the first entry, and the entries, each with the number of its first line. -/
def group (number : Nat) : List (List Char) → List (List Char) × List (Nat × List (List Char))
  | [] => ([], [])
  | line :: rest =>
    let (tail, entries) := group (number + 1) rest
    if startsEntry line then ([], (number, line :: tail) :: entries) else (line :: tail, entries)

/-- The entries of a section, each with the number of its first line. -/
def entries (part : Section) : List (Nat × List Char) :=
  let body := Text.after [':'] part.text.toList
  (group part.line (Text.lines body)).2.map fun (number, ls) => (number, Text.joinLines ls)

end Description

namespace OptionTable

/-- The options that the options sections of a help text declare. -/
def read (source : String) : Except HelpError OptionTable := do
  let entries := (Section.findAll "options:" source).flatMap Description.entries
  let options ← entries.mapM fun (number, entry) => Description.read entry (some number)
  return ofList options

end OptionTable

end Synopsis
