/-!
# Searches

A search yields its answers one at a time and works only as far as it is asked. Between two answers
it carries a memo, which whoever asks may have added to in the meantime: resuming takes the memo as
it is then. `toList` runs a search to its end.
-/

namespace Synopsis

/-- A search for values of type `α` with a memo of type `μ`. -/
inductive Search (μ α : Type) where
  | done (memo : μ)
  | yield (value : α) (memo : μ) (resume : μ → Search μ α)

namespace Search

variable {μ α β : Type}

/-- The search with a single answer. -/
def pure (value : α) (memo : μ) : Search μ α :=
  yield value memo done

def append (s : Search μ α) (next : μ → Search μ α) : Search μ α :=
  match s with
  | done memo => next memo
  | yield value memo resume => yield value memo fun m => (resume m).append next

def map (f : α → β) : Search μ α → Search μ β
  | done memo => done memo
  | yield value memo resume => yield (f value) memo fun m => (resume m).map f

/-- For each answer, the search that starts from it. -/
def bind (f : α → μ → Search μ β) : Search μ α → Search μ β
  | done memo => done memo
  | yield value memo resume => (f value memo).append fun m => (resume m).bind f

def toList : Search μ α → List α
  | done _ => []
  | yield value memo resume => value :: (resume memo).toList

/-- The first answers, the search going no further. -/
def take (n : Nat) : Search μ α → List α
  | done _ => []
  | yield value memo resume =>
    match n with
    | 0 => []
    | 1 => [value]
    | n + 2 => value :: (resume memo).take (n + 1)

theorem take_eq (n : Nat) (s : Search μ α) : s.take n = s.toList.take n := by
  induction s generalizing n with
  | done => simp [take, toList]
  | yield value memo resume ih =>
    match n with
    | 0 => rfl
    | 1 => simp [take, toList]
    | n + 2 => simp [take, toList, ih]

end Search

end Synopsis
