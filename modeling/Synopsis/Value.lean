import Synopsis.Text.Quoted

/-!
# Values

What a name is bound to: nothing, a flag, a count, a text or a list.
-/

namespace Synopsis

inductive Value where
  | absent
  | flag (set : Bool)
  | count (n : Int)
  | text (s : String)
  | list (items : List Value)

namespace Value

instance : Inhabited Value := ⟨absent⟩

def isSet : Value → Bool
  | flag set => set
  | _ => false

def text? : Value → Option String
  | text s => some s
  | _ => none

def texts : Value → List String
  | list vs => vs.filterMap text?
  | _ => []

/-- Whether a flag is set, as it is listed. -/
def describeFlag (b : Bool) : String :=
  if b then "True" else "False"

mutual

def describe : Value → String
  | absent => "None"
  | flag b => describeFlag b
  | count n => toString n
  | text s => Text.quoted s
  | list vs => "[" ++ String.intercalate ", " (describeAll vs) ++ "]"

def describeAll : List Value → List String
  | [] => []
  | v :: vs => describe v :: describeAll vs

end

end Value

end Synopsis
