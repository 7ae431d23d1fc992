import Synopsis.Fault
import Synopsis.Lexeme
import Synopsis.OptionTable
import Synopsis.Pattern
import Synopsis.Text.Letter

/-!
# Reading the pattern of a usage line

A choice is one or more sequences with bars between them. A sequence is a row of elements, each of
which an ellipsis may follow. An element is a choice in parentheses or in brackets, an option with
its placeholder, a cluster of short options, the word for the options of the line, an argument or a
command. An option that the table does not hold is added to it as it is met, so later lexemes are
read with it.

`readChoice`, `readSequence` and `readElement` read these from the start of a list of lexemes and
give back what they left; `readLine` reads a whole line.
-/

namespace Synopsis.Pattern

/-- The patterns read from the start of some lexemes, the table as it has grown, and the lexemes
left, of which there are at most `bound`. -/
structure Readout (bound : Nat) where
  patterns : List Pattern
  table : OptionTable
  rest : List Lexeme
  bounded : rest.length ≤ bound

def faultAt (lex : Lexeme) (fault : Fault) : HelpError :=
  .inLine fault lex.line lex.column

/-- The lexemes that are never the value of an option. -/
def isDelimiter (text : String) : Bool :=
  text ∈ ["(", ")", "[", "]", "|", "..."]

/-- The lexemes that end a sequence. -/
def endsSequence (text : String) : Bool :=
  text ∈ [")", "]", "|"]

/-- A lexeme may be the value of an option. -/
def isPlaceholder (text : String) : Bool :=
  text ≠ "--" && !isDelimiter text

/-- The lexemes after the placeholder of the option that `lex` names. -/
def afterPlaceholder (lex : Lexeme) (form : String) (rest : List Lexeme) :
    Except HelpError { r : List Lexeme // r.length ≤ rest.length } :=
  match rest with
  | [] => .error (faultAt lex (.valueMissing form))
  | value :: r =>
    if isPlaceholder value.text then .ok ⟨r, by simp⟩
    else .error (faultAt lex (.valueMissing form))

/-- Reads a long option. One that is not in the table takes a value if it is written with an equals
sign. -/
def readLong (lex : Lexeme) (rest : List Lexeme) (table : OptionTable) :
    Except HelpError (Readout rest.length) :=
  let (form, inline) := Text.splitAt '=' lex.text.toList
  let long := String.ofList form
  match table.byLong long with
  | [] =>
    let o : OptionDef := { long := some long, arity := if inline.isSome then 1 else 0 }
    .ok ⟨[ofOption o], table.insert o, rest, Nat.le_refl _⟩
  | o :: _ =>
    if o.takesValue then
      if inline.isSome then .ok ⟨[ofOption o], table, rest, Nat.le_refl _⟩
      else do
        let r ← afterPlaceholder lex long rest
        return ⟨[ofOption o], table, r.1, r.2⟩
    else if inline.isSome then .error (faultAt lex (.valueRefused long))
    else .ok ⟨[ofOption o], table, rest, Nat.le_refl _⟩

/-- Reads the letters of a cluster of short options. What follows the letter of an option with a
value is its placeholder. -/
def readShorts (lex : Lexeme) (rest : List Lexeme) :
    OptionTable → List Char → Except HelpError (Readout rest.length)
  | table, [] => .ok ⟨[], table, rest, Nat.le_refl _⟩
  | table, c :: letters =>
    let short := String.ofList ['-', c]
    match table.byShort short with
    | [] => do
      let o : OptionDef := { short := some short }
      let more ← readShorts lex rest (table.insert o) letters
      return ⟨ofOption o :: more.patterns, more.table, more.rest, more.bounded⟩
    | [o] =>
      if o.takesValue then
        if letters.isEmpty then do
          let r ← afterPlaceholder lex short rest
          return ⟨[ofOption o], table, r.1, r.2⟩
        else .ok ⟨[ofOption o], table, rest, Nat.le_refl _⟩
      else do
        let more ← readShorts lex rest table letters
        return ⟨ofOption o :: more.patterns, more.table, more.rest, more.bounded⟩
    | found => .error (faultAt lex (.shortAmbiguous short found.length))

/-- A word in angle brackets or in upper case names an argument. -/
def namesArgument (word : List Char) : Bool :=
  (word.head? == some '<' && word.getLast? == some '>') || Text.allUpper word

/-- Reads an element that is a single word. -/
def readWord (lex : Lexeme) (rest : List Lexeme) (table : OptionTable) :
    Except HelpError (Readout rest.length) :=
  let single (p : Pattern) : Except HelpError (Readout rest.length) :=
    .ok ⟨[p], table, rest, Nat.le_refl _⟩
  if lex.text = "..." then .error (faultAt lex .danglingEllipsis)
  else if lex.text = "options" then single (shortcut [])
  else
    match lex.text.toList with
    | '-' :: '-' :: _ :: _ => readLong lex rest table
    | ['-', '-'] => single (leaf (.command lex.text))
    | '-' :: c :: letters => readShorts lex rest table (c :: letters)
    | word =>
      single (leaf (if namesArgument word then .argument lex.text else .command lex.text))

/-- Takes an ellipsis into the element before it. -/
def withEllipsis {bound : Nat} (r : Readout bound) : Readout bound :=
  match h : r.rest with
  | [] => r
  | lex :: rest =>
    if lex.text = "..." then
      ⟨[oneOrMore (group r.patterns)], r.table, rest, by
        have := r.bounded
        rw [h, List.length_cons] at this
        omega⟩
    else r

def closing? (text : String) : Option String :=
  if text = "(" then some ")" else if text = "[" then some "]" else none

/-- A branch of a choice: a sequence of several elements counts as one. -/
def branch (ps : List Pattern) : List Pattern :=
  if ps.length > 1 then [required ps] else ps

/-- The branches of a choice as one pattern; a single branch needs no choice. -/
def choose (branches : List Pattern) : List Pattern :=
  if branches.length > 1 then [either branches] else branches

mutual

def readChoice (s : List Lexeme) (table : OptionTable) :
    Except HelpError (Readout s.length) := do
  let first ← readSequence s table
  match h : first.rest with
  | [] => return first
  | bar :: r =>
    if bar.text = "|" then
      have : r.length < s.length := by
        have := first.bounded
        rw [h, List.length_cons] at this
        omega
      let more ← readBranches r first.table
      return ⟨choose (branch first.patterns ++ more.patterns), more.table, more.rest,
        Nat.le_trans more.bounded (Nat.le_of_lt this)⟩
    else return first
termination_by (s.length, 3)

/-- Reads the branches that follow a bar. -/
def readBranches (s : List Lexeme) (table : OptionTable) :
    Except HelpError (Readout s.length) := do
  let first ← readSequence s table
  match h : first.rest with
  | [] => return ⟨branch first.patterns, first.table, [], Nat.zero_le _⟩
  | bar :: r =>
    have hle : r.length < s.length := by
      have := first.bounded
      rw [h, List.length_cons] at this
      omega
    if bar.text = "|" then
      let more ← readBranches r first.table
      return ⟨branch first.patterns ++ more.patterns, more.table, more.rest,
        Nat.le_trans more.bounded (Nat.le_of_lt hle)⟩
    else
      return ⟨branch first.patterns, first.table, bar :: r, hle⟩
termination_by (s.length, 2)

def readSequence (s : List Lexeme) (table : OptionTable) :
    Except HelpError (Readout s.length) :=
  match s with
  | [] => .ok ⟨[], table, [], Nat.le_refl _⟩
  | lex :: r =>
    if endsSequence lex.text then .ok ⟨[], table, lex :: r, Nat.le_refl _⟩
    else do
      let element ← readElement lex r table
      let first := withEllipsis element
      have : first.rest.length < (lex :: r).length := by
        have := first.bounded
        simp only [List.length_cons]
        omega
      let more ← readSequence first.rest first.table
      return ⟨first.patterns ++ more.patterns, more.table, more.rest,
        Nat.le_trans more.bounded (Nat.le_of_lt this)⟩
termination_by (s.length, 1)

/-- Reads the element that starts with the given lexeme. -/
def readElement (lex : Lexeme) (rest : List Lexeme) (table : OptionTable) :
    Except HelpError (Readout rest.length) :=
  match closing? lex.text with
  | none => readWord lex rest table
  | some close => do
    let inner ← readChoice rest table
    match h : inner.rest with
    | [] => .error (faultAt lex (.unmatched lex.text))
    | bracket :: r =>
      if bracket.text = close then
        let p := if lex.text = "(" then required inner.patterns else optional inner.patterns
        return ⟨[p], inner.table, r, by
          have := inner.bounded
          rw [h, List.length_cons] at this
          omega⟩
      else .error (faultAt lex (.unmatched lex.text))
termination_by (rest.length + 1, 0)

end

/-- The section options that a line does not name, for its shortcuts. -/
def unnamed (declared : OptionTable) (line : Pattern) : List Pattern :=
  let named := (line.leaves.filterMap Leaf.option?).map OptionDef.name
  (declared.options.filter fun o => !named.contains o.name).map ofOption

/-- Reads a usage line. The declared options not named in it fill its shortcuts. -/
def readLine (declared table : OptionTable) (s : List Lexeme) :
    Except HelpError (Pattern × OptionTable) := do
  let read ← readChoice s table
  match read.rest with
  | lex :: _ => .error (faultAt lex (.unexpected lex.text))
  | [] =>
    let line := required read.patterns
    return (line.fill (unnamed declared line), read.table)

end Synopsis.Pattern
