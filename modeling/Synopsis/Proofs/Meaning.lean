import Mathlib.Data.List.Basic
import Synopsis.Proofs.Consumption

/-!
# What a leaf looks at

A token remembers the argument it was read from. Of an option, a leaf looks at the definition and
the value only, so its outcome does not depend on the spelling.
-/

namespace Synopsis

namespace Token

/-- What a token says, apart from the spelling of an option: its kind, its option and its value. -/
def meaning : Token → Token
  | option o _ value => option o "" value
  | t => t

@[simp] theorem option?_meaning (t : Token) : t.meaning.option? = t.option? := by
  cases t <;> rfl

@[simp] theorem isPositional_meaning (t : Token) : t.meaning.isPositional = t.isPositional := by
  cases t <;> rfl

theorem isOptionOf_meaning (name : String) (t : Token) :
    t.meaning.isOptionOf name = t.isOptionOf name := by
  rw [isOptionOf, isOptionOf, option?_meaning]

@[simp] theorem value_meaning (t : Token) : t.meaning.value = t.value := by
  cases t with
  | plain raw => rfl
  | marker raw => rfl
  | option o raw value => cases value <;> rfl

end Token

namespace Matching

variable (tokens : List Token)

theorem findSome?_meaning (kind : Token → Bool) (hk : ∀ t, kind (t.meaning) = kind t)
    (left : List Nat) :
    (left.findSome? fun i =>
      match (tokens.map Token.meaning)[i]? with
      | some t => if kind t then some (i, t) else none
      | none => none) =
    (left.findSome? fun i =>
      match tokens[i]? with
      | some t => if kind t then some (i, t) else none
      | none => none).map fun (i, t) => (i, t.meaning) := by
  rw [List.map_findSome?]
  congr 1
  funext i
  rw [List.getElem?_map, Function.comp_apply]
  cases tokens[i]? with
  | none => rfl
  | some t =>
    simp only [Option.map_some, hk]
    split <;> rfl

theorem firstPositional?_meaning (left : List Nat) :
    firstPositional? (tokens.map Token.meaning) left =
      (firstPositional? tokens left).map fun (i, t) => (i, t.meaning) :=
  findSome?_meaning tokens Token.isPositional Token.isPositional_meaning left

theorem firstOption?_meaning (name : String) (left : List Nat) :
    firstOption? (tokens.map Token.meaning) name left =
      (firstOption? tokens name left).map fun (i, t) => (i, t.meaning) :=
  findSome?_meaning tokens (Token.isOptionOf name) (Token.isOptionOf_meaning name) left

theorem leafOutcome?_meaning (l : Leaf) (left : List Nat) :
    leafOutcome? (tokens.map Token.meaning) l left = leafOutcome? tokens l left := by
  cases l with
  | command name =>
    rw [leafOutcome?, leafOutcome?, firstPositional?_meaning]
    cases firstPositional? tokens left with
    | none => rfl
    | some found => cases found with | mk i t => cases t <;> rfl
  | argument name =>
    rw [leafOutcome?, leafOutcome?, firstPositional?_meaning]
    cases firstPositional? tokens left with
    | none => rfl
    | some found => cases found with | mk i t => cases t <;> rfl
  | option o =>
    rw [leafOutcome?, leafOutcome?, firstOption?_meaning, Option.map_map]
    simp only [Function.comp_def, Token.value_meaning]

end Matching

end Synopsis
