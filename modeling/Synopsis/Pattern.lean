import Synopsis.OptionDef

/-!
# Patterns

A pattern says which command lines a usage line admits. Its leaves are commands, positional
arguments and options; the other nodes combine their children. `leaves` gives the leaves from left
to right.
-/

namespace Synopsis

inductive Leaf where
  | command (name : String)
  | argument (name : String)
  | option (definition : OptionDef)
  deriving DecidableEq, Hashable

namespace Leaf

/-- The name under which a match is bound. -/
def name : Leaf → String
  | command name => name
  | argument name => name
  | option o => o.name

def option? : Leaf → Option OptionDef
  | option o => some o
  | _ => none

def describe : Leaf → String
  | command name => "Command(name=" ++ Text.quoted name ++ ")"
  | argument name => "Argument(name=" ++ Text.quoted name ++ ")"
  | option o => "OptionRef(option=" ++ o.describe ++ ")"

end Leaf

inductive Pattern where
  | leaf (l : Leaf)
  /-- All children, one after the other. -/
  | required (children : List Pattern)
  /-- Each child or not. -/
  | optional (children : List Pattern)
  /-- The options that a usage line stands for without naming them, each or not. -/
  | shortcut (children : List Pattern)
  /-- One of the children, the earlier ones first. -/
  | either (children : List Pattern)
  /-- The child once or more often, as often as possible. -/
  | oneOrMore (child : Pattern)

namespace Pattern

instance : Inhabited Pattern := ⟨required []⟩

def ofOption (o : OptionDef) : Pattern :=
  leaf (.option o)

mutual

def leaves : Pattern → List Leaf
  | leaf l => [l]
  | required ps => leavesAll ps
  | optional ps => leavesAll ps
  | shortcut ps => leavesAll ps
  | either ps => leavesAll ps
  | oneOrMore p => leaves p

def leavesAll : List Pattern → List Leaf
  | [] => []
  | p :: ps => leaves p ++ leavesAll ps

end

mutual

def describe : Pattern → String
  | leaf l => l.describe
  | required ps => "Required(" ++ String.intercalate ", " (describeAll ps) ++ ")"
  | optional ps => "Optional(" ++ String.intercalate ", " (describeAll ps) ++ ")"
  | shortcut ps => "OptionsShortcut(" ++ String.intercalate ", " (describeAll ps) ++ ")"
  | either ps => "Either(" ++ String.intercalate ", " (describeAll ps) ++ ")"
  | oneOrMore p => "OneOrMore(" ++ describe p ++ ")"

def describeAll : List Pattern → List String
  | [] => []
  | p :: ps => describe p :: describeAll ps

end

mutual

/-- Equality of patterns is decided from the root down. -/
def decEq : (p q : Pattern) → Decidable (p = q)
  | leaf l, q =>
    match q with
    | leaf m => decidable_of_iff (l = m) (by simp)
    | required _ | optional _ | shortcut _ | either _ | oneOrMore _ => isFalse (by simp)
  | required ps, q =>
    match q with
    | required qs => @decidable_of_iff _ (ps = qs) (by simp) (decEqAll ps qs)
    | leaf _ | optional _ | shortcut _ | either _ | oneOrMore _ => isFalse (by simp)
  | optional ps, q =>
    match q with
    | optional qs => @decidable_of_iff _ (ps = qs) (by simp) (decEqAll ps qs)
    | leaf _ | required _ | shortcut _ | either _ | oneOrMore _ => isFalse (by simp)
  | shortcut ps, q =>
    match q with
    | shortcut qs => @decidable_of_iff _ (ps = qs) (by simp) (decEqAll ps qs)
    | leaf _ | required _ | optional _ | either _ | oneOrMore _ => isFalse (by simp)
  | either ps, q =>
    match q with
    | either qs => @decidable_of_iff _ (ps = qs) (by simp) (decEqAll ps qs)
    | leaf _ | required _ | optional _ | shortcut _ | oneOrMore _ => isFalse (by simp)
  | oneOrMore p, q =>
    match q with
    | oneOrMore r => @decidable_of_iff _ (p = r) (by simp) (decEq p r)
    | leaf _ | required _ | optional _ | shortcut _ | either _ => isFalse (by simp)

def decEqAll : (ps qs : List Pattern) → Decidable (ps = qs)
  | [], [] => isTrue rfl
  | [], _ :: _ => isFalse (by simp)
  | _ :: _, [] => isFalse (by simp)
  | p :: ps, q :: qs =>
    match decEq p q with
    | isFalse h => isFalse (by simp [h])
    | isTrue h =>
      match decEqAll ps qs with
      | isFalse hs => isFalse (by simp [hs])
      | isTrue hs => isTrue (by rw [h, hs])

end

instance : DecidableEq Pattern := decEq

mutual

def hashCode : Pattern → UInt64
  | leaf l => mixHash 1 (hash l)
  | required ps => mixHash 2 (hashAll ps)
  | optional ps => mixHash 3 (hashAll ps)
  | shortcut ps => mixHash 4 (hashAll ps)
  | either ps => mixHash 5 (hashAll ps)
  | oneOrMore p => mixHash 6 (hashCode p)

def hashAll : List Pattern → UInt64
  | [] => 7
  | p :: ps => mixHash (hashCode p) (hashAll ps)

end

instance : Hashable Pattern := ⟨hashCode⟩

mutual

/-- The pattern with the given options in place of those that each shortcut stands for. -/
def fill (options : List Pattern) : Pattern → Pattern
  | leaf l => leaf l
  | required ps => required (fillAll options ps)
  | optional ps => optional (fillAll options ps)
  | shortcut _ => shortcut options
  | either ps => either (fillAll options ps)
  | oneOrMore p => oneOrMore (fill options p)

def fillAll (options : List Pattern) : List Pattern → List Pattern
  | [] => []
  | p :: ps => fill options p :: fillAll options ps

end

@[simp] theorem leavesAll_map_leaf (leaves : List Leaf) :
    leavesAll (leaves.map leaf) = leaves := by
  induction leaves with
  | nil => rfl
  | cons l leaves ih => rw [List.map_cons, leavesAll, ih, Pattern.leaves, List.singleton_append]

@[simp] theorem fillAll_map_leaf (options : List Pattern) (leaves : List Leaf) :
    fillAll options (leaves.map leaf) = leaves.map leaf := by
  induction leaves with
  | nil => rfl
  | cons l leaves ih => rw [List.map_cons, fillAll, fill, ih]

theorem map_ofOption (os : List OptionDef) : os.map ofOption = (os.map .option).map leaf :=
  List.map_map.symm

theorem leavesAll_map_ofOption (os : List OptionDef) :
    leavesAll (os.map ofOption) = os.map .option := by
  rw [map_ofOption, leavesAll_map_leaf]

/-- Several patterns as one. -/
def group : List Pattern → Pattern
  | [p] => p
  | ps => required ps

end Pattern

end Synopsis
