import Synopsis.Pattern
import Synopsis.Text.Blank
import Synopsis.Value

/-!
# Actions

How the matches of a name make up its value: the last one is stored, all of them are collected, or
they are counted. `Action.initial` is the value of a name without a match, and `Action.fold` takes
one more match into the value. The first match discards a default.

`Pattern.multiplicity` bounds how often a name can match, and `Pattern.actions` derives from it the
action of each name.
-/

namespace Synopsis

/-- How the matches of a name make up its value. -/
inductive Action where
  | store (initial : Value)
  | append (initial : List Value)
  | count (initial : Int)

namespace Action

/-- A name that is either given or not. -/
def storeFlag : Action := store (.flag false)

/-- A name with a value and without a default. -/
def storeValue : Action := store .absent

/-- A name with a value and a default. -/
def storeDefault (value : Value) : Action := store value

/-- A repeated name with values and without a default. -/
def appendValues : Action := append []

/-- A repeated name with values, the words of the default standing for them. -/
def appendDefault (value : String) : Action :=
  append ((Text.words value.toList).map fun w => .text (String.ofList w))

/-- A repeated name without values. -/
def countMatches : Action := count 0

/-- The value of a name without a match. -/
def initial : Action → Value
  | store v => v
  | append vs => .list vs
  | count n => .count n

/-- The value after one more match. -/
def fold (a : Action) (current value : Value) (first : Bool) : Value :=
  match a with
  | store _ => value
  | append _ =>
    match first, current with
    | false, .list vs => .list (vs ++ [value])
    | _, _ => .list [value]
  | count _ =>
    match first, current with
    | false, .count n => .count (n + 1)
    | _, _ => .count 1

/-- The action of a leaf, by its kind and by whether its name can match more than once. -/
def ofLeaf (l : Leaf) (repeating : Bool) : Action :=
  match l with
  | .command _ => if repeating then countMatches else storeFlag
  | .argument _ => if repeating then appendValues else storeValue
  | .option o =>
    if !o.takesValue then if repeating then countMatches else storeFlag
    else
      match o.default, repeating with
      | none, true => appendValues
      | none, false => storeValue
      | some d, true => appendDefault d
      | some d, false => storeDefault (.text d)

end Action

namespace Pattern

mutual

/-- How often a name can match on one way through the pattern. A repetition counts twice, which is
as good as any number above one. -/
def multiplicity (name : String) : Pattern → Nat
  | leaf l => if l.name = name then 1 else 0
  | required ps => multiplicitySum name ps
  | optional ps => multiplicitySum name ps
  | shortcut ps => multiplicitySum name ps
  | either ps => multiplicityMax name ps
  | oneOrMore p => 2 * multiplicity name p

/-- How often a name can match on the way through several patterns. -/
def multiplicitySum (name : String) : List Pattern → Nat
  | [] => 0
  | p :: ps => multiplicity name p + multiplicitySum name ps

/-- How often a name can match on the way through one of several patterns. -/
def multiplicityMax (name : String) : List Pattern → Nat
  | [] => 0
  | p :: ps => max (multiplicity name p) (multiplicityMax name ps)

end

/-- The leaves with a name not seen before, from left to right. -/
def firstLeaves (p : Pattern) : List Leaf :=
  p.leaves.foldl (fun seen l => if seen.any (·.name == l.name) then seen else seen ++ [l]) []

/-- The action of each name, by the leaf that first bears it. -/
def actions (p : Pattern) : List (String × Action) :=
  p.firstLeaves.map fun l => (l.name, Action.ofLeaf l (p.multiplicity l.name > 1))

end Pattern

end Synopsis
