import Std.Data.HashSet
import Synopsis.Node
import Synopsis.Search
import Synopsis.Token

/-!
# Matching tokens with a pattern

A pattern consumes some of the tokens that are left and leaves the others. Positional leaves take
the first token left that is no option, and an option leaf the first one of its option, so options
may stand anywhere. `Node.outcomes` searches the ways to match a pattern in the order in which they
are preferred, without repeating what is left; a memo keeps the nodes and tokens left that are known
to have no outcome, a node being known by its identity. `run` takes the first outcome that leaves
nothing. It asks a memo of its own, so that patterns can stand for their identities.
-/

namespace Synopsis

structure LeafMatch where
  leaf : Leaf
  /-- The place of the token on the command line. -/
  index : Nat
  value : Value

/-- The tokens that a match leaves, by their places, and what it consumed. -/
structure Outcome where
  left : List Nat
  matched : List LeafMatch

/-- The outcome with what was consumed before in front. -/
def Outcome.after (before : List LeafMatch) (o : Outcome) : Outcome :=
  ⟨o.left, before ++ o.matched⟩

def LeafMatch.name (m : LeafMatch) : String :=
  m.leaf.name

namespace Matching

/-- The identities of nodes that had no outcome from the given tokens. -/
abbrev Failures (κ : Type) [BEq κ] [Hashable κ] := Std.HashSet (κ × List Nat)

variable {μ κ : Type} [BEq κ] [Hashable κ]

section

variable (tokens : List Token)

/-- The first token left that is no option. -/
def firstPositional? (left : List Nat) : Option (Nat × Token) :=
  left.findSome? fun i =>
    match tokens[i]? with
    | some t => if t.isPositional then some (i, t) else none
    | none => none

/-- The first token left of the option with the given name. -/
def firstOption? (name : String) (left : List Nat) : Option (Nat × Token) :=
  left.findSome? fun i =>
    match tokens[i]? with
    | some t => if t.option?.any (·.name == name) then some (i, t) else none
    | none => none

/-- The outcome of consuming a token. -/
def consume (leaf : Leaf) (left : List Nat) (i : Nat) (value : Value) : Outcome :=
  ⟨left.filter (· != i), [⟨leaf, i, value⟩]⟩

/-- The outcome of a leaf. -/
def leafOutcome? (l : Leaf) (left : List Nat) : Option Outcome :=
  match l with
  | .command name =>
    match firstPositional? tokens left with
    | some (i, .plain raw) => if raw = name then some (consume l left i (.flag true)) else none
    | some (i, .marker raw) =>
      if raw = name ∧ name = "--" then some (consume l left i (.flag true)) else none
    | _ => none
  | .argument _ =>
    match firstPositional? tokens left with
    | some (i, .plain raw) => some (consume l left i (.text raw))
    | _ => none
  | .option o => (firstOption? tokens o.name left).map fun (i, t) => consume l left i t.value

/-- The search for a single outcome, if there is one. -/
def ofOption (o : Option Outcome) (memo : μ) : Search μ Outcome :=
  match o with
  | some outcome => .pure outcome memo
  | none => .done memo

/-- Drops the outcomes that leave what an earlier one left. If there is none at all, the memo takes
that down. -/
def distinct (key : κ × List Nat) (seen : Std.HashSet (List Nat)) :
    Search (Failures κ) Outcome → Search (Failures κ) Outcome
  | .done memo => .done (if seen.isEmpty then memo.insert key else memo)
  | .yield o memo resume =>
    if seen.contains o.left then distinct key seen (resume memo)
    else .yield o memo fun m => distinct key (seen.insert o.left) (resume m)

/-- The distinct outcomes of a search, unless the memo knows that there is none. -/
def remember (key : κ × List Nat) (memo : Failures κ)
    (search : Failures κ → Search (Failures κ) Outcome) : Search (Failures κ) Outcome :=
  if memo.contains key then .done memo else distinct key ∅ (search memo)

/-- One repetition after the other, the longest first. A repetition that consumes nothing is the
last one, so there are no more rounds than tokens left. -/
def repeated (once : List Nat → μ → Search μ Outcome) : Nat → List Nat → μ → Search μ Outcome
  | 0, left, memo => once left memo
  | rounds + 1, left, memo =>
    (once left memo).bind fun o memo =>
      if o.left = left then .pure o memo
      else ((repeated once rounds o.left memo).map (Outcome.after o.matched)).append (.pure o)

end

end Matching

namespace Node

open Matching

variable {κ : Type} [BEq κ] [Hashable κ] (tokens : List Token)

mutual

def outcomes : Node κ → List Nat → Failures κ → Search (Failures κ) Outcome
  | leaf i l, left, memo => remember (i, left) memo (ofOption (leafOutcome? tokens l left))
  | required i ns, left, memo => remember (i, left) memo (sequence false ns left)
  | optional i ns, left, memo => remember (i, left) memo (sequence true ns left)
  | shortcut i ns, left, memo => remember (i, left) memo (sequence true ns left)
  | either i ns, left, memo => remember (i, left) memo (alternatives ns left)
  | oneOrMore i n, left, memo =>
    remember (i, left) memo (repeated (fun left memo => outcomes n left memo) left.length left)

/-- The outcomes of patterns one after the other; if skipping is allowed, each of them may be left
out once its own outcomes are tried. -/
def sequence (skipping : Bool) :
    List (Node κ) → List Nat → Failures κ → Search (Failures κ) Outcome
  | [], left, memo => .pure ⟨left, []⟩ memo
  | n :: ns, left, memo =>
    ((outcomes n left memo).bind fun o memo =>
      (sequence skipping ns o.left memo).map (Outcome.after o.matched)).append fun memo =>
        if skipping then sequence skipping ns left memo else .done memo

def alternatives : List (Node κ) → List Nat → Failures κ → Search (Failures κ) Outcome
  | [], _, memo => .done memo
  | n :: ns, left, memo => (outcomes n left memo).append fun memo => alternatives ns left memo

end

end Node

namespace Matching

structure Result where
  /-- What the first outcome that leaves nothing consumed. -/
  matched : Option (List LeafMatch)
  /-- The least that an outcome left so far, the first of several. -/
  closest : List Nat

/-- The first outcome that leaves nothing. -/
def settle {μ : Type} (closest : List Nat) : Search μ Outcome → Result
  | .done _ => ⟨none, closest⟩
  | .yield o memo resume =>
    if o.left.isEmpty then ⟨some o.matched, closest⟩
    else settle (if o.left.length < closest.length then o.left else closest) (resume memo)

variable (tokens : List Token)

/-- The places of all tokens. -/
def everything : List Nat :=
  List.range tokens.length

/-- A memo for patterns that stand for their own identities. -/
abbrev Memo := Failures Pattern

def outcomes (p : Pattern) : List Nat → Memo → Search Memo Outcome :=
  (Node.ofPattern p).outcomes tokens

/-- The outcomes of a pattern on a whole command line. -/
def search (p : Pattern) : Search Memo Outcome :=
  outcomes tokens p (everything tokens) ∅

/-- Matches a whole command line. -/
def run (p : Pattern) : Result :=
  settle (everything tokens) (search tokens p)

end Matching

end Synopsis
