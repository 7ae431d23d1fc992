import Synopsis.Config

/-!
# Namespaces

A namespace gives the programs declared in it a common configuration. Names stand for namespaces;
a name used for the first time gets a new one, and a given namespace takes the place of the one its
name stood for. One name is the default. Entering a namespace makes it the default one until it is
left, which brings back the very namespace that was the default before.
-/

namespace Synopsis

structure Namespace where
  name : String
  config : Config := {}

/-- What says which namespace is meant. -/
inductive NamespaceRef where
  /-- The one that the name stands for. -/
  | named (name : String)
  /-- A new one. -/
  | given (n : Namespace)

/-- The name of the namespace that is meant. -/
def NamespaceRef.name : NamespaceRef → String
  | named name => name
  | given n => n.name

/-- Names agree if they are the same, and namespaces if their names are; a name does not agree with
a namespace. -/
def NamespaceRef.agrees : NamespaceRef → NamespaceRef → Bool
  | named a, named b => a = b
  | given m, given n => m.name = n.name
  | _, _ => false

structure Namespaces where
  /-- All namespaces so far, the earlier ones first. -/
  made : List Namespace
  /-- The place of the namespace that each name stands for, in the order in which the names came
  up. -/
  registered : List (String × Nat)
  /-- The name of the default namespace. -/
  current : String
  /-- The places of the namespaces to come back to, the next one first. -/
  outer : List Nat := []

namespace Namespaces

/-- The namespace that every session starts with. -/
def initial : Namespaces where
  made := [⟨"Docopt", {}⟩]
  registered := [("Docopt", 0)]
  current := "Docopt"

/-- The names, in the order in which they came up. -/
def names (ns : Namespaces) : List String :=
  ns.registered.map Prod.fst

/-- The place of the namespace that a name stands for. -/
def place? (ns : Namespaces) (name : String) : Option Nat :=
  (Keyed.get? Prod.fst name ns.registered).map Prod.snd

/-- The namespace that a name stands for; without any it would be a new one. -/
def lookup (ns : Namespaces) (name : String) : Namespace :=
  ((ns.place? name).bind fun i => ns.made[i]?).getD ⟨name, {}⟩

/-- Makes the name stand for the namespace at the given place. -/
def register (ns : Namespaces) (name : String) (place : Nat) : Namespaces :=
  { ns with registered := Keyed.put Prod.fst (name, place) ns.registered }

/-- Makes the name of a new namespace stand for it. -/
def add (ns : Namespaces) (n : Namespace) : Namespaces :=
  { ns with made := ns.made ++ [n] }.register n.name ns.made.length

/-- Makes sure that the name of the namespace that is meant stands for it. -/
def resolve (ns : Namespaces) : NamespaceRef → Namespaces
  | .given n => ns.add n
  | .named name => if (ns.place? name).isSome then ns else ns.add ⟨name, {}⟩

def default (ns : Namespaces) : Namespace :=
  ns.lookup ns.current

def setDefault (ns : Namespaces) (r : NamespaceRef) : Namespaces :=
  { ns.resolve r with current := r.name }

/-- Makes a namespace the default one until it is left. -/
def enter (ns : Namespaces) (r : NamespaceRef) : Namespaces :=
  { ns with outer := (ns.place? ns.current).toList ++ ns.outer }.setDefault r

/-- Leaves the namespace entered last. -/
def leave? (ns : Namespaces) : Option Namespaces :=
  match ns.outer with
  | [] => none
  | place :: outer =>
    match ns.made[place]? with
    | none => none
    | some n => some { ns.register n.name place with current := n.name, outer }

/-- Changes the configuration of the namespace that is meant. -/
def configure (ns : Namespaces) (r : NamespaceRef) (change : Config → Config) : Namespaces :=
  let ns := ns.resolve r
  match ns.place? r.name with
  | none => ns
  | some place =>
    { ns with made := ns.made.modify place fun n => { n with config := change n.config } }

end Namespaces

end Synopsis
