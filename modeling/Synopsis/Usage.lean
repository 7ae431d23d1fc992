import Synopsis.Fault
import Synopsis.Lexeme
import Synopsis.Section

/-!
# The usage section

The usage section of a help text names the program and shows one line per way to call it. The first
lexeme after the label is the program; each later lexeme equal to it starts another line, so a line
may be wrapped at will. `Usage.read` finds the one usage section and cuts it into these lines.
-/

namespace Synopsis

structure Usage where
  body : Section
  program : Lexeme
  /-- The lexemes of each line, the program left out. -/
  lines : List (List Lexeme)
  deriving DecidableEq

namespace Usage

def label : String := "usage:"

/-- The only usage section. -/
def find (source : String) : Except HelpError Section :=
  match Section.findAll label source with
  | [] => .error (.anywhere .usageMissing)
  | [found] => .ok found
  | _ :: second :: _ => .error (.onLine .usageRepeated second.line)

/-- The section as it stands in the help text, shown along with errors. -/
def printable (source : String) : Except HelpError String :=
  (find source).map Section.text

/-- The lower case form of a character of the heading line: one letter, or two for the dotted
capital I. Letters beyond ASCII do not spell the label and are left alone. -/
def lowered (c : Char) : List Char :=
  if c = '\u0130' then ['i', '\u0307'] else [c.toLower]

/-- How many characters the label and all before it take in lower case. -/
def labelEnd? (heading : List Char) : Option Nat :=
  (Text.offset? label.toList (heading.flatMap lowered)).map (· + label.length)

/-- The heading line with spaces in place of the label and all before it. -/
def blankLabel? (heading : List Char) : Option (List Char) :=
  (labelEnd? heading).map fun n => List.replicate n ' ' ++ heading.drop n

/-- The lexemes of consecutive lines, the first of which has the given number. -/
def lexemes (line : Nat) : List (List Char) → List Lexeme
  | [] => []
  | text :: rest =>
    (Lexeme.splitLine text).map (fun (piece, column) => ⟨String.ofList piece, line, column⟩) ++
      lexemes (line + 1) rest

/-- The lexemes of the section. -/
def sectionLexemes (source : String) (found : Section) : Except HelpError (List Lexeme) :=
  let physical := (Text.lines source.toList).drop (found.line - 1)
  match physical.take (found.text.toList.count '\n' + 1) with
  | [] => .ok []
  | heading :: rest =>
    match blankLabel? heading with
    | none => .error (.anywhere .labelUnreadable)
    | some heading => .ok (lexemes found.line (heading :: rest))

/-- The lexemes after the program, cut at every further occurrence of it. What stands before the
first occurrence is a line of its own if there is anything. -/
def cutLines (program : String) (rest : List Lexeme) : List (List Lexeme) :=
  match go rest with
  | ([], []) => [[]]
  | ([], line :: lines) => line :: lines
  | (first, lines) => first :: lines
where
  /-- The lexemes before the first occurrence, and the lines that the occurrences start. -/
  go : List Lexeme → List Lexeme × List (List Lexeme)
    | [] => ([], [])
    | lex :: rest =>
      let (line, lines) := go rest
      if lex.text = program then ([], line :: lines) else (lex :: line, lines)

/-- No usage line stands right below the section, that is, indented after nothing but blank
lines. -/
def checkAlone (source : String) (found : Section) (program : Lexeme) : Except HelpError Unit :=
  let s := source.toList
  let above := (s.take found.stop).count '\n'
  go (above + 1) (Text.lines (s.drop found.stop))
where
  /-- The first line that is not blank decides. -/
  go (number : Nat) : List (List Char) → Except HelpError Unit
    | [] => .ok ()
    | line :: rest =>
      match Text.words line with
      | [] => go (number + 1) rest
      | word :: _ =>
        if Section.isIndented line && String.ofList word == program.text then
          .error (.inLine (.usageInterrupted (String.ofList (Text.trim line))) number
            (line.length - (Text.trimLeft line).length))
        else .ok ()

def read (source : String) : Except HelpError Usage := do
  let found ← find source
  match ← sectionLexemes source found with
  | [] => .error (.onLine .programMissing found.line)
  | program :: rest =>
    checkAlone source found program
    return ⟨found, program, cutLines program.text rest⟩

/-- The words of a usage section as one formula: each line between brackets, bars between the
lines. -/
def formula (usage : String) : String :=
  match Text.words (Text.after [':'] usage.toList) with
  | [] => "(  )"
  | program :: rest =>
    let parts := rest.map fun w => if w = program then ") | (" else String.ofList w
    "( " ++ String.intercalate " " parts ++ " )"

end Usage

end Synopsis
