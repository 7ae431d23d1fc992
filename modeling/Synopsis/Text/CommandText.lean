/-!
# Command lines given as one text

A text is cut into arguments at its spaces and line breaks. A quote that opens at the start of an
argument holds blanks together up to the next quote of its kind that ends an argument; any other
quote, and one after a backslash, stands for itself. A quote that is never closed holds nothing
together: the blanks after it cut, and what it swallowed at its start is put back.
-/

namespace Synopsis.Text

/-- The characters that part arguments. -/
def isParting (c : Char) : Bool :=
  c == ' ' || c == '\n' || c == '\r'

def isQuote (c : Char) : Bool :=
  c == '\'' || c == '"'

structure Cutting where
  /-- The characters kept; a cut is no character. -/
  kept : List (Option Char) := []
  quote : Option Char := none
  escaped : Bool := false
  /-- Where the blanks inside the open quote stand, counted from one. -/
  held : List Nat := []
  /-- The place in the text of the last blank that cut, counted from one. -/
  lastPart : Nat := 0
  /-- How many characters were kept before that blank, plus one. -/
  lastPartKept : Nat := 0
  /-- The place in the text of the last closing quote, counted from one. -/
  lastQuote : Nat := 0

namespace Cutting

/-- Keeps a character. -/
def keep (s : Cutting) (c : Char) : Cutting :=
  { s with kept := s.kept ++ [some c] }

/-- Puts a character in place of the one kept last. -/
def replaceLast (s : Cutting) (c : Char) : Cutting :=
  { s with kept := s.kept.dropLast ++ [some c] }

/-- The next character ends an argument or is a quote. -/
def endsArgument (next : Option Char) : Bool :=
  match next with
  | none => true
  | some c => isQuote c || isParting c

/-- Takes in a quote, the character at the given place. -/
def takeQuote (s : Cutting) (place : Nat) (c : Char) (next : Option Char) : Cutting :=
  let opening := 1 + (if s.escaped then 1 else 0) + max s.lastPart s.lastQuote
  let s' :=
    if place = opening ∧ s.quote.isNone then { s with quote := some c }
    else if (s.kept.isEmpty || endsArgument next) && s.quote == some c then
      { s with quote := none, lastQuote := place }
    else s.keep c
  if s.escaped then s'.replaceLast c else s'

/-- Takes in a blank, the character at the given place. -/
def takeParting (s : Cutting) (place : Nat) (c : Char) : Cutting :=
  if s.quote.isSome then { s.keep c with held := s.held ++ [s.kept.length + 1] }
  else
    { s with
      lastPart := place
      lastPartKept := s.kept.length + 1
      kept := if s.kept.isEmpty || s.kept.getLast? == some none then s.kept else s.kept ++ [none]
      held := [] }

/-- Takes in the character at the given place. -/
def take (s : Cutting) (place : Nat) (c : Char) (next : Option Char) : Cutting :=
  let s' :=
    if isQuote c then s.takeQuote place c next
    else if isParting c then s.takeParting place c
    else s.keep c
  { s' with escaped := c == '\\' }

/-- Takes in the characters from the given place on. -/
def takeAll (s : Cutting) (place : Nat) : List Char → Cutting
  | [] => s
  | c :: rest => (s.take place c rest.head?).takeAll (place + 1) rest

/-- The arguments between the cuts. -/
def arguments : List (Option Char) → List (List Char)
  | [] => [[]]
  | none :: r => [] :: arguments r
  | some c :: r =>
    match arguments r with
    | [] => [[c]]
    | word :: words => (c :: word) :: words

/-- The characters kept of a whole text, an open quote undone. -/
def settle (s : Cutting) (text : List Char) : List (Option Char) :=
  if s.quote.isSome && !s.held.isEmpty then
    let swallowed := if s.lastPart != 0 then s.lastPart else s.lastQuote
    let place := min s.lastPartKept s.kept.length
    let restored := s.kept.take place ++ some (text.getD swallowed ' ') :: s.kept.drop place
    s.held.foldl (fun kept i => kept.set i none) restored
  else s.kept

end Cutting

/-- The arguments of a command line given as one text. -/
def commandArguments (line : String) : List String :=
  let text := ((line.toList.dropWhile isParting).reverse.dropWhile isParting).reverse
  let cutting := Cutting.takeAll {} 1 text
  if cutting.kept.isEmpty then []
  else (Cutting.arguments (cutting.settle text)).map String.ofList

end Synopsis.Text
