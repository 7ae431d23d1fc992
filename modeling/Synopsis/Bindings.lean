import Synopsis.Action
import Synopsis.Keyed
import Synopsis.Matching

/-!
# Bindings

The matches of a command line are taken in the order of their tokens, and each is folded into the
value of its name. Every name of the pattern is bound; one without a match keeps its initial value.
-/

namespace Synopsis

/-- The value of each name, in the order in which the names stand in the pattern. -/
abbrev Bindings := List (String × Value)

namespace Bindings

def get? (b : Bindings) (name : String) : Option Value :=
  (Keyed.get? Prod.fst name b).map Prod.snd

def set (b : Bindings) (name : String) (value : Value) : Bindings :=
  Keyed.put Prod.fst (name, value) b

def names (b : Bindings) : List String :=
  b.map Prod.fst

def initial (actions : List (String × Action)) : Bindings :=
  actions.map fun (name, action) => (name, action.initial)

/-- Folds matches in, given the names that matched before. A name without an action is an error. -/
def foldMatches (actions : List (String × Action)) :
    List String → Bindings → List LeafMatch → Except String Bindings
  | _, b, [] => .ok b
  | touched, b, m :: rest =>
    match Keyed.get? Prod.fst m.name actions with
    | none => .error m.name
    | some (_, action) =>
      let current := (b.get? m.name).getD .absent
      let value := action.fold current m.value (!touched.contains m.name)
      foldMatches actions (m.name :: touched) (b.set m.name value) rest

/-- The matches in the order of their tokens. -/
def inOrder (matched : List LeafMatch) : List LeafMatch :=
  matched.mergeSort fun a b => a.index ≤ b.index

/-- The bindings that matches amount to. The error is a name without an action. -/
def reduce (matched : List LeafMatch) (actions : List (String × Action)) :
    Except String Bindings :=
  foldMatches actions [] (initial actions) (inOrder matched)

end Bindings

end Synopsis
