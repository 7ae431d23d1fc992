import Synopsis.Bindings
import Synopsis.Cursor
import Synopsis.Name

/-!
# The arguments of a program

Reading a command line gives the bindings, or the reason why there are none. A binding is found by
its key, or by the bare or identifier form of the key if only one key has it.
-/

namespace Synopsis

inductive Stop where
  /-- An argument is faulty. -/
  | input (e : InputError)
  /-- No usage line fits; the best attempt leaves the given arguments. -/
  | mismatch (left : List String)
  /-- The help text is asked for. -/
  | help (text : String)
  /-- The version is asked for. -/
  | version (text : String)
  deriving DecidableEq

namespace Stop

def message : Stop → String
  | input e => e.fault.text
  | mismatch left =>
    let rest := String.intercalate ", " left
    "The command line does not match any usage pattern." ++
      (if left.isEmpty then "" else s!" Unexpected arguments: {rest}.")
  | help _ => "Help requested."
  | version _ => "Version requested."

def kind : Stop → String
  | input _ => "UserInputError"
  | mismatch _ => "UsagePatternMismatch"
  | help _ => "HelpRequested"
  | version _ => "VersionRequested"

def describe (s : Stop) : String :=
  s.kind ++ "(" ++ Text.quoted s.message ++ ")"

/-- The text that answers a built-in option. -/
def output? : Stop → Option String
  | help text => some text
  | version text => some text
  | _ => none

/-- The command line cannot be read, as opposed to asking for a built-in answer. -/
def isFailure (s : Stop) : Bool :=
  s.output?.isNone

end Stop

structure Arguments where
  /-- The program. -/
  source : String
  /-- The command line. -/
  origin : List String
  matched : Bool
  bindings : Bindings
  /-- Why there are no bindings. -/
  stop : Option Stop
  /-- The arguments that could not be read or matched. -/
  errorData : List String
  /-- The answer to a built-in option. -/
  output : Option String

inductive Key where
  | text (name : String)
  /-- No text, given as it is written out. -/
  | other (shown : String)
  /-- Nothing that a mapping can be asked for, given by its type. -/
  | unhashable (type : String)

inductive LookupError where
  | missing (name : String)
  | ambiguous (name : String) (candidates : List String)
  deriving DecidableEq

def LookupError.message : LookupError → String
  | missing name => name
  | ambiguous name candidates =>
    let names := String.intercalate ", " candidates
    s!"\"{name}\" is ambiguous, candidates: {names}."

inductive KeyFault where
  | lookup (e : LookupError)
  | unhashable (type : String)
  deriving DecidableEq

def KeyFault.message : KeyFault → String
  | lookup e => e.message
  | unhashable type => "unhashable type: " ++ Text.quoted type

namespace Bindings

/-- The keys with the given bare or identifier form. -/
def candidates (b : Bindings) (name : String) : List String :=
  b.names.filter fun key => Name.bare key = name || Name.identifier key = name

/-- The key that a name stands for: the name itself, or the only key with that form. -/
def resolve (b : Bindings) (name : String) : Except LookupError String :=
  if name ∈ b.names then .ok name
  else
    match b.candidates name with
    | [] => .error (.missing name)
    | [key] => .ok key
    | keys => .error (.ambiguous name keys)

/-- The value that a name stands for. -/
def find (b : Bindings) (name : String) : Except LookupError Value := do
  let key ← b.resolve name
  match b.get? key with
  | some value => return value
  | none => .error (.missing key)

def has (b : Bindings) (name : String) : Bool :=
  (b.resolve name).isOk

/-- The value that a name stands for, or a default. -/
def query (b : Bindings) (name : String) (default : Value) : Value :=
  match b.find name with
  | .ok value => value
  | .error _ => default

/-- The value of a key, which may be no text. -/
def item (b : Bindings) : Key → Except KeyFault Value
  | .text name => (b.find name).mapError .lookup
  | .other shown => .error (.lookup (.missing shown))
  | .unhashable type => .error (.unhashable type)

def contains (b : Bindings) : Key → Bool
  | .text name => b.has name
  | _ => false

/-- The value of a key, or a default if it has none. -/
def queryItem (b : Bindings) (key : Key) (default : Value) : Except KeyFault Value :=
  match b.item key with
  | .error (.lookup _) => .ok default
  | answer => answer

def describe (b : Bindings) : String :=
  let entries := b.map fun (key, value) => Text.quoted key ++ ": " ++ value.describe
  "\x7b" ++ String.intercalate ", " entries ++ "\x7d"

end Bindings

inductive Member where
  | source
  | origin
  | matched
  | bindings
  | errorInfo
  | errorData
  | output
  /-- The bindings, as a view of their own. -/
  | all
  /-- An operation, or what else belongs to every object of the kind. -/
  | operation
  deriving DecidableEq

def Member.operations : List String :=
  ["query", "get", "keys", "items", "values", "_resolve", "_abc_impl", "_is_protocol"] ++
  ["abstractmethods", "class", "class_getitem", "contains", "delattr", "dict", "dir", "doc", "eq",
    "format", "ge", "getattr", "getattribute", "getitem", "getstate", "gt", "hash", "init",
    "init_subclass", "iter", "le", "len", "lt", "module", "ne", "new", "orig_bases", "parameters",
    "reduce", "reduce_ex", "repr", "reversed", "setattr", "sizeof", "slots", "str", "subclasshook",
    "weakref"].map fun name => "__" ++ name ++ "__"

def Member.ofName? : String → Option Member
  | "source" => some source
  | "origin" => some origin
  | "matched" => some matched
  | "bindings" => some bindings
  | "error_info" => some errorInfo
  | "error_data" => some errorData
  | "output" => some output
  | "all_matched_args" => some all
  | name => if name ∈ operations then some operation else none

inductive Attribute where
  | member (m : Member)
  | value (v : Value)

namespace Arguments

/-- The attribute of a name: a member, or the value that the name stands for. A name that starts
with two underscores stands for no value. -/
def attribute? (a : Arguments) (name : String) : Option Attribute :=
  match Member.ofName? name with
  | some m => some (.member m)
  | none =>
    if "__".toList.isPrefixOf name.toList then none
    else
      match a.bindings.find name with
      | .ok v => some (.value v)
      | .error _ => none

def describe (a : Arguments) : String :=
  if a.matched then "Arguments(" ++ a.bindings.describe ++ ")"
  else
    let data := "[" ++ String.intercalate ", " (a.errorData.map Text.quoted) ++ "]"
    let stop := (a.stop.map Stop.describe).getD "None"
    s!"Arguments(matched=False, error_data={data}, error_info={stop})"

end Arguments

end Synopsis
