import Synopsis.Text.Alphanumeric

/-!
# Names without decoration

A name is also known by its bare form, without the angle brackets of an argument or the dashes of an
option, and by its identifier form, in which every character that cannot stand in an identifier is
an underscore. A decorated name ends where its line does; a newline at its very end is dropped.
-/

namespace Synopsis.Name

/-- The text without the newline at its end. -/
def dropNewline : List Char → List Char
  | [] => []
  | ['\n'] => []
  | c :: r => c :: dropNewline r

/-- The text inside angle brackets: at least one character, on one line. -/
def bracketed? (s : List Char) : Option (List Char) :=
  match s with
  | '<' :: r =>
    match r.reverse with
    | '>' :: inside =>
      if inside.isEmpty || inside.contains '\n' then none else some inside.reverse
    | _ => none
  | _ => none

/-- The text after one or two dashes: at least one character, on one line. -/
def dashed? (s : List Char) : Option (List Char) :=
  let rest? : Option (List Char) :=
    match s with
    | '-' :: '-' :: c :: r => some (c :: r)
    | '-' :: c :: r => some (c :: r)
    | _ => none
  rest?.filter (!·.contains '\n')

/-- The bare form, as a list of characters. -/
def bareChars (s : List Char) : List Char :=
  if s = ['-'] ∨ s = ['-', '-'] then s
  else
    let line := dropNewline s
    ((bracketed? line).or (dashed? line)).getD s

/-- A character as it stands in an identifier. -/
def identifierChar (c : Char) : Char :=
  if Text.isAlphanumeric c || c == '_' then c else '_'

/-- The bare form of a name. -/
def bare (name : String) : String :=
  String.ofList (bareChars name.toList)

/-- The identifier form of a name. -/
def identifier (name : String) : String :=
  String.ofList ((bareChars name.toList).map identifierChar)

end Synopsis.Name
