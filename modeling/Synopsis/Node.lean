import Synopsis.Pattern

/-!
# Patterns as objects

A pattern in use is an object, and so is each of its nodes: it has an identity, and two nodes may be
equal patterns all the same. An identity tells a node from all others that exist at the time; once
the node is gone, another one may have it. `pattern` forgets the identities, and `ofPattern` takes
the patterns themselves for identities, so that equal patterns are one node.
-/

namespace Synopsis

inductive Node (κ : Type) where
  | leaf (identity : κ) (l : Leaf)
  | required (identity : κ) (children : List (Node κ))
  | optional (identity : κ) (children : List (Node κ))
  | shortcut (identity : κ) (children : List (Node κ))
  | either (identity : κ) (children : List (Node κ))
  | oneOrMore (identity : κ) (child : Node κ)

namespace Node

variable {κ : Type}

def identity : Node κ → κ
  | leaf i _ => i
  | required i _ => i
  | optional i _ => i
  | shortcut i _ => i
  | either i _ => i
  | oneOrMore i _ => i

def children : Node κ → List (Node κ)
  | leaf _ _ => []
  | required _ ns => ns
  | optional _ ns => ns
  | shortcut _ ns => ns
  | either _ ns => ns
  | oneOrMore _ n => [n]

mutual

def pattern : Node κ → Pattern
  | leaf _ l => .leaf l
  | required _ ns => .required (patterns ns)
  | optional _ ns => .optional (patterns ns)
  | shortcut _ ns => .shortcut (patterns ns)
  | either _ ns => .either (patterns ns)
  | oneOrMore _ n => .oneOrMore (pattern n)

def patterns : List (Node κ) → List Pattern
  | [] => []
  | n :: ns => pattern n :: patterns ns

end

mutual

def ofPattern : Pattern → Node Pattern
  | .leaf l => leaf (.leaf l) l
  | .required ps => required (.required ps) (ofPatterns ps)
  | .optional ps => optional (.optional ps) (ofPatterns ps)
  | .shortcut ps => shortcut (.shortcut ps) (ofPatterns ps)
  | .either ps => either (.either ps) (ofPatterns ps)
  | .oneOrMore p => oneOrMore (.oneOrMore p) (ofPattern p)

def ofPatterns : List Pattern → List (Node Pattern)
  | [] => []
  | p :: ps => ofPattern p :: ofPatterns ps

end

@[simp] theorem identity_ofPattern (p : Pattern) : (ofPattern p).identity = p := by
  cases p <;> rfl

mutual

@[simp] theorem pattern_ofPattern : ∀ p : Pattern, (ofPattern p).pattern = p
  | .leaf _ => rfl
  | .required ps => congrArg Pattern.required (patterns_ofPatterns ps)
  | .optional ps => congrArg Pattern.optional (patterns_ofPatterns ps)
  | .shortcut ps => congrArg Pattern.shortcut (patterns_ofPatterns ps)
  | .either ps => congrArg Pattern.either (patterns_ofPatterns ps)
  | .oneOrMore p => congrArg Pattern.oneOrMore (pattern_ofPattern p)

@[simp] theorem patterns_ofPatterns : ∀ ps : List Pattern, patterns (ofPatterns ps) = ps
  | [] => rfl
  | p :: ps => by rw [ofPatterns, patterns, pattern_ofPattern p, patterns_ofPatterns ps]

end

end Node

end Synopsis
