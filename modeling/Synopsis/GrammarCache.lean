import Synopsis.Grammar
import Synopsis.Store

/-!
# Cached grammars

The grammars of the help texts used last are kept in a store, so that a text seen again need not be
read again. The cache counts how often a text was found and how often it was not; a text that cannot
be read leaves no grammar behind.
-/

namespace Synopsis

/-- A grammar that was read, with a number that no other reading has. -/
structure Compiled where
  grammar : Grammar
  serial : Nat

structure GrammarCache (σ : Type) where
  recent : σ
  hits : Nat := 0
  misses : Nat := 0
  /-- How many grammars were read so far. -/
  readings : Nat := 0

namespace GrammarCache

variable {σ : Type} [Store σ String Compiled]

/-- A cache without grammars. -/
def ofSize (capacity : Nat) : GrammarCache σ :=
  { recent := Store.empty capacity }

def initial : GrammarCache σ :=
  ofSize 128

def holds (c : GrammarCache σ) (source : String) : Bool :=
  Store.holds c.recent source

/-- How many grammars the cache holds. -/
def cached (c : GrammarCache σ) : Nat :=
  Store.size c.recent

/-- The grammar of a help text, from the cache or else read and kept. -/
def compile (c : GrammarCache σ) (source : String) :
    GrammarCache σ × Except HelpError Compiled :=
  match Store.find? c.recent source with
  | some (found, recent) => ({ c with recent, hits := c.hits + 1 }, .ok found)
  | none =>
    match Grammar.ofHelp source with
    | .error e => ({ c with misses := c.misses + 1 }, .error e)
    | .ok grammar =>
      let made : Compiled := ⟨grammar, c.readings⟩
      (⟨Store.put c.recent source made, c.hits, c.misses + 1, c.readings + 1⟩, .ok made)

/-- The cache with room for another number of grammars; it is refused if that is none. -/
def resize? (c : GrammarCache σ) (size : Nat) : Option (GrammarCache σ) :=
  (Store.resize? c.recent size).map fun recent => { c with recent }

/-- The cache without grammars and with its counts back at zero. -/
def clear (c : GrammarCache σ) : GrammarCache σ :=
  { c with recent := Store.clear c.recent, hits := 0, misses := 0 }

end GrammarCache

end Synopsis
