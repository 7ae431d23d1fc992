import Synopsis.OptionTable
import Synopsis.Text.Cut
import Synopsis.Text.EditDistance
import Synopsis.Token

/-!
# Reading the arguments of a command line

A cursor stands between the arguments read and those ahead. `tokenize` moves it to the end and
collects the tokens: two dashes end the options, other arguments that start with a dash are options
or clusters of short ones, and the rest are plain. An option may take its value from the same
argument or from the next one. A cursor that meets a faulty argument stops right after it and keeps
the tokens read before.
-/

namespace Synopsis

inductive InputFault where
  | unknown (form : String)
  /-- Unknown, but an option is spelled alike. -/
  | unknownNear (form near : String)
  | notUnique (form : String) (candidates : List String)
  | shortAmbiguous (form : String) (count : Nat)
  | valueRefused (form : String)
  | valueMissing (form : String)
  deriving DecidableEq

def InputFault.text : InputFault → String
  | unknown form => s!"{form} is not recognized."
  | unknownNear form near => s!"{form} is not recognized, did you mean {near}?"
  | notUnique form candidates =>
    s!"{form} is not a unique prefix: " ++ String.intercalate ", " candidates ++ "?"
  | shortAmbiguous form count => s!"{form} is specified ambiguously {count} times."
  | valueRefused form => s!"{form} must not have an argument."
  | valueMissing form => s!"{form} requires an argument."

structure InputError where
  fault : InputFault
  argument : String
  deriving DecidableEq

structure Conventions where
  options : OptionTable
  /-- All arguments after the first plain one are plain. -/
  optionsFirst : Bool := false
  /-- The marker that ends the options is a token. -/
  keepMarker : Bool := true
  /-- Ask for the option meant by an unknown long one. -/
  guess : Bool := false
  /-- How much alike an option must be to be asked for. -/
  threshold : Float := 0.6

namespace Conventions

variable (c : Conventions)

/-- The candidate most like the form, the first of several. -/
def nearest (form : String) : List String → Option (String × Float)
  | [] => none
  | s :: rest =>
    let alike := Text.similarity form s
    match nearest form rest with
    | some (best, most) => if most > alike then some (best, most) else some (s, alike)
    | none => some (s, alike)

/-- The fault of an unknown option. -/
def unknown (form : String) : InputFault :=
  if c.guess && "--".toList.isPrefixOf form.toList then
    match nearest form (c.options.options.filterMap OptionDef.long?) with
    | some (best, alike) => if alike ≥ c.threshold then .unknownNear form best else .unknown form
    | none => .unknown form
  else .unknown form

/-- The value of an option given by the next argument. -/
def nextValue (form raw : String) (next : Option String) : Except InputError String :=
  match next with
  | none => .error ⟨.valueMissing form, raw⟩
  | some value => if value = "--" then .error ⟨.valueMissing form, raw⟩ else .ok value

/-- The long option that a form names: in full, or by its start. -/
def resolveLong (form raw : String) : Except InputError OptionDef :=
  let found :=
    match c.options.byLong form with
    | [] => c.options.byStart form
    | found => found
  match found with
  | [] => .error ⟨c.unknown form, raw⟩
  | [o] => .ok o
  | os => .error ⟨.notUnique form (os.map fun o => o.long.getD ""), raw⟩

def resolveShort (form raw : String) : Except InputError OptionDef :=
  match c.options.byShort form with
  | [] => .error ⟨c.unknown form, raw⟩
  | [o] => .ok o
  | os => .error ⟨.shortAmbiguous form os.length, raw⟩

/-- Reads a long option, and tells whether it takes the next argument for its value. -/
def readLong (raw : String) (next : Option String) : Except InputError (Token × Bool) := do
  let (form, inline) := Text.splitAt '=' raw.toList
  let o ← c.resolveLong (String.ofList form) raw
  let long := o.long.getD ""
  match o.takesValue, inline with
  | false, none => return (.option o raw none, false)
  | false, some _ => .error ⟨.valueRefused long, raw⟩
  | true, some value => return (.option o raw (some (String.ofList value)), false)
  | true, none => return (.option o raw (some (← nextValue long raw next)), true)

/-- Reads the letters of a cluster of short options, and tells whether the last one takes the next
argument for its value. -/
def readLetters (raw : String) (next : Option String) :
    List Char → Except InputError (List Token × Bool)
  | [] => .ok ([], false)
  | letter :: rest => do
    let short := String.ofList ['-', letter]
    let o ← c.resolveShort short raw
    if o.takesValue then
      if rest.isEmpty then return ([.option o raw (some (← nextValue short raw next))], true)
      else return ([.option o raw (some (String.ofList rest))], false)
    else
      let (tokens, took) ← readLetters raw next rest
      return (.option o raw none :: tokens, took)

/-- Reads a cluster of short options: the letters after its first character. -/
def readShorts (raw : String) (next : Option String) : Except InputError (List Token × Bool) :=
  c.readLetters raw next (raw.toList.drop 1)

structure Step where
  tokens : List Token
  /-- The next argument was taken for a value. -/
  tookNext : Bool
  /-- The arguments that follow are plain. -/
  literal : Bool

def step (literal : Bool) (raw : String) (next : Option String) : Except InputError Step :=
  if literal then .ok ⟨[.plain raw], false, true⟩
  else
    match raw.toList with
    | ['-', '-'] => .ok ⟨if c.keepMarker then [.marker raw] else [], false, true⟩
    | '-' :: '-' :: _ => do
      let (token, took) ← c.readLong raw next
      return ⟨[token], took, false⟩
    | '-' :: _ :: _ => do
      let (tokens, took) ← c.readShorts raw next
      return ⟨tokens, took, false⟩
    | _ => .ok ⟨[.plain raw], false, c.optionsFirst⟩

end Conventions

/-- A place between the arguments of a command line, and the tokens read so far. -/
structure Cursor where
  past : List String := []
  ahead : List String := []
  tokens : List Token := []
  /-- The arguments ahead are plain. -/
  literal : Bool := false

namespace Cursor

def start (arguments : List String) : Cursor :=
  { ahead := arguments }

def arguments (c : Cursor) : List String :=
  c.past ++ c.ahead

/-- How many arguments are read. -/
def position (c : Cursor) : Nat :=
  c.past.length

def isDone (c : Cursor) : Bool :=
  c.ahead.isEmpty

def peek (c : Cursor) : Option String :=
  c.ahead.head?

/-- The cursor after the next argument. -/
def advance (c : Cursor) : Cursor :=
  match c.ahead with
  | [] => c
  | raw :: rest => { c with past := c.past ++ [raw], ahead := rest }

/-- The cursor after what was read, the next argument taken along or not. -/
def settle {α : Type} (c : Cursor) : Except InputError (α × Bool) → Cursor × Except InputError α
  | .error e => (c, .error e)
  | .ok (read, true) => (c.advance, .ok read)
  | .ok (read, false) => (c, .ok read)

/-- Reads a long option that is not among the arguments; its value may be the next one. -/
def readLong (c : Cursor) (rules : Conventions) (raw : String) : Cursor × Except InputError Token :=
  c.settle (rules.readLong raw c.peek)

def readShorts (c : Cursor) (rules : Conventions) (raw : String) :
    Cursor × Except InputError (List Token) :=
  c.settle (rules.readShorts raw c.peek)

/-- Reads all arguments ahead; the error is that of the first faulty one. -/
def readAll (rules : Conventions) (past : List String) (tokens : List Token) (literal : Bool) :
    List String → Cursor × Option InputError
  | [] => (⟨past, [], tokens, literal⟩, none)
  | raw :: ahead =>
    match rules.step literal raw ahead.head? with
    | .error e => (⟨past ++ [raw], ahead, tokens, literal⟩, some e)
    | .ok s =>
      match s.tookNext, ahead with
      | true, value :: rest =>
        readAll rules (past ++ [raw, value]) (tokens ++ s.tokens) s.literal rest
      | _, ahead => readAll rules (past ++ [raw]) (tokens ++ s.tokens) s.literal ahead

def tokenize (c : Cursor) (rules : Conventions) : Cursor × Option InputError :=
  readAll rules c.past c.tokens c.literal c.ahead

end Cursor

def Conventions.tokenize (c : Conventions) (arguments : List String) :
    Except InputError (List Token) :=
  match (Cursor.start arguments).tokenize c with
  | (_, some e) => .error e
  | (done, none) => .ok done.tokens

end Synopsis
