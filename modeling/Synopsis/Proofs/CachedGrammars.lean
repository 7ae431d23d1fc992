import Mathlib.Data.List.Basic
import Synopsis.GrammarCache

/-!
# Grammars in a cache

The entries of a store stand in the order of their last use. A cache is honest if it holds what its
help texts say: it is so at first and stays so whatever is done with it. Nothing is used of the
store but its laws.
-/

namespace Synopsis

namespace Store

variable {σ κ α : Type} [DecidableEq κ] [Store σ κ α] {s after : σ} {key : κ} {value : α}
  {room : Nat} {list : List (κ × α)}

/-- The entries once an entry is the most recently used one. -/
def renewed (s : σ) (key : κ) (value : α) : List (κ × α) :=
  ((key, value) :: others key (entries s)).take (capacity s)

/-- **Renewing a key makes it the most recently used one** and drops the last keys that there is no
room for. -/
theorem keys_renewed (s : σ) (key : κ) (value : α) :
    (renewed s key value).map Prod.fst =
      (key :: (keys s).filter (· ≠ key)).take (capacity s) := by
  rw [renewed, List.map_take, List.map_cons, others, keys, List.filter_map]
  rfl

theorem mem_of_mem_renewed {e : κ × α} (h : e ∈ renewed s key value) :
    e = (key, value) ∨ e ∈ entries s := by
  rcases List.mem_cons.mp (List.mem_of_mem_take h) with h | h
  · exact .inl h
  · exact .inr (List.mem_filter.mp h).1

variable [LawfulStore σ κ α]

theorem find?_eq_none (h : find? s key = none) : key ∉ keys s := by
  rw [← LawfulStore.find?_isSome, h]
  exact Bool.false_ne_true

/-- Looking up a key that is held drops nothing, so it does what putting the entry would do. -/
theorem shows_renewed_of_find? (h : find? s key = some (value, after)) :
    (key, value) ∈ entries s ∧ Shows after (capacity s) (renewed s key value) := by
  obtain ⟨hmem, hshows⟩ := LawfulStore.found h
  have hle := LawfulStore.size_le after
  rw [LawfulStore.size_eq, hshows.entries, hshows.capacity] at hle
  refine ⟨hmem, hshows.capacity, ?_⟩
  rw [renewed, List.take_of_length_le hle]
  exact hshows.entries

end Store

namespace GrammarCache

variable {σ : Type} [Store σ String Compiled] {c : GrammarCache σ} {source : String} {g : Grammar}

/-- **The cache holds what its help texts say.** -/
def Honest (c : GrammarCache σ) : Prop :=
  ∀ e ∈ Store.entries c.recent, Grammar.ofHelp e.1 = .ok e.2.grammar

/-- **What compiling does**: a help text that can be read becomes the one used last, whether it was
held, which is a hit, or had to be read. Otherwise only a miss is counted. -/
inductive Compiles (c : GrammarCache σ) (source : String) :
    GrammarCache σ × Except HelpError Compiled → Prop
  | hit {made : Compiled} {recent : σ} : source ∈ Store.keys c.recent →
      Grammar.ofHelp source = .ok made.grammar →
      Store.Shows recent (Store.capacity c.recent) (Store.renewed c.recent source made) →
      Compiles c source ({ c with recent, hits := c.hits + 1 }, .ok made)
  | read {made : Compiled} {recent : σ} {readings : Nat} : source ∉ Store.keys c.recent →
      Grammar.ofHelp source = .ok made.grammar →
      Store.Shows recent (Store.capacity c.recent) (Store.renewed c.recent source made) →
      Compiles c source (⟨recent, c.hits, c.misses + 1, readings⟩, .ok made)
  | fault {e : HelpError} : source ∉ Store.keys c.recent → Grammar.ofHelp source = .error e →
      Compiles c source ({ c with misses := c.misses + 1 }, .error e)

theorem Honest.renewed (h : c.Honest) {made : Compiled} {recent : σ} {room : Nat}
    (hs : Grammar.ofHelp source = .ok made.grammar)
    (hshows : Store.Shows recent room (Store.renewed c.recent source made)) :
    ∀ e ∈ Store.entries recent, Grammar.ofHelp e.1 = .ok e.2.grammar := by
  intro e he
  rw [hshows.entries] at he
  rcases Store.mem_of_mem_renewed he with rfl | he
  · exact hs
  · exact h e he

variable [LawfulStore σ String Compiled]

theorem honest_ofSize (capacity : Nat) : (ofSize capacity : GrammarCache σ).Honest := by
  intro e he
  rw [ofSize, (LawfulStore.empty capacity).entries] at he
  exact absurd he List.not_mem_nil

theorem honest_initial : (initial : GrammarCache σ).Honest :=
  honest_ofSize 128

theorem honest_clear (c : GrammarCache σ) : c.clear.Honest := by
  intro e he
  rw [clear, (LawfulStore.clear c.recent).entries] at he
  exact absurd he List.not_mem_nil

theorem Honest.resize (h : c.Honest) {size : Nat} {c' : GrammarCache σ}
    (hc : c.resize? size = some c') : c'.Honest := by
  obtain ⟨recent, hrecent, rfl⟩ := Option.map_eq_some_iff.mp hc
  intro e he
  rcases Nat.eq_zero_or_pos size with rfl | hsize
  · rw [LawfulStore.refused] at hrecent
    exact nomatch hrecent
  · obtain ⟨after, hafter, hshows⟩ := LawfulStore.resized c.recent hsize
    obtain rfl := Option.some.inj (hafter.symm.trans hrecent)
    rw [hshows.entries] at he
    exact h e (List.mem_of_mem_take he)

theorem Honest.compiles (h : c.Honest) (source : String) :
    Compiles c source (c.compile source) := by
  rw [GrammarCache.compile]
  cases hfound : Store.find? c.recent source with
  | some found =>
    obtain ⟨made, recent⟩ := found
    obtain ⟨hmem, hshows⟩ := Store.shows_renewed_of_find? hfound
    have hheld : source ∈ Store.keys c.recent := List.mem_map_of_mem hmem
    have hs : Grammar.ofHelp source = .ok made.grammar := h (source, made) hmem
    exact .hit hheld hs hshows
  | none =>
    have hmissing := Store.find?_eq_none hfound
    cases hs : Grammar.ofHelp source with
    | error e => exact .fault hmissing hs
    | ok g => exact .read hmissing hs (LawfulStore.put c.recent source _)

theorem Honest.compile (h : c.Honest) (source : String) : (c.compile source).1.Honest := by
  have hcompiles := h.compiles source
  generalize c.compile source = result at hcompiles
  cases hcompiles with
  | hit _ hs hshows => exact h.renewed hs hshows
  | read _ hs hshows => exact h.renewed hs hshows
  | fault => exact h

/-- An honest cache gives what a help text says, whether it held the text or not. -/
theorem Honest.transparent (h : c.Honest) (source : String) :
    (c.compile source).2.map Compiled.grammar = Grammar.ofHelp source := by
  have hcompiles := h.compiles source
  generalize c.compile source = result at hcompiles
  cases hcompiles with
  | hit _ hs =>
    rw [hs]
    rfl
  | read _ hs =>
    rw [hs]
    rfl
  | fault _ hs =>
    rw [hs]
    rfl

theorem Honest.gives (h : c.Honest) (hs : Grammar.ofHelp source = .ok g) :
    ∃ compiled, (c.compile source).2 = .ok compiled ∧ compiled.grammar = g := by
  have ht := h.transparent source
  rw [hs] at ht
  cases hresult : (c.compile source).2 with
  | error e =>
    rw [hresult] at ht
    exact nomatch ht
  | ok compiled =>
    rw [hresult] at ht
    exact ⟨compiled, rfl, Except.ok.inj ht⟩

/-- What is done with a cache. -/
inductive Step where
  | compile (source : String)
  | resize (size : Int)
  | clear

/-- The cache after a step. A size below one is refused. -/
def step (c : GrammarCache σ) : Step → GrammarCache σ
  | .compile source => (c.compile source).1
  | .resize size => (c.resize? size.toNat).getD c
  | .clear => c.clear

/-- The cache after some steps. -/
def run (c : GrammarCache σ) (steps : List Step) : GrammarCache σ :=
  steps.foldl step c

theorem Honest.step (h : c.Honest) (s : Step) : (c.step s).Honest := by
  cases s with
  | compile source => exact h.compile source
  | resize size =>
    rw [GrammarCache.step]
    cases hc : c.resize? size.toNat with
    | none => exact h
    | some c' => exact h.resize hc
  | clear => exact honest_clear c

end GrammarCache

end Synopsis
