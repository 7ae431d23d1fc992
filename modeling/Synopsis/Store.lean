/-!
# Stores with limited room

A store keeps the entries used last, and no more of them than there is room for. `Store` is what is
asked of one, `LawfulStore` how it answers.
-/

namespace Synopsis

class Store (σ : Type) (κ α : outParam Type) where
  empty (capacity : Nat) : σ
  capacity : σ → Nat
  /-- The most recently used one first. -/
  entries : σ → List (κ × α)
  size : σ → Nat
  holds : σ → κ → Bool
  /-- The value of a key, and the store after looking it up. -/
  find? : σ → κ → Option (α × σ)
  put : σ → κ → α → σ
  resize? : σ → Nat → Option σ
  clear : σ → σ

namespace Store

variable {σ κ α : Type}

/-- The entries with other keys. -/
def others [DecidableEq κ] (key : κ) (entries : List (κ × α)) : List (κ × α) :=
  entries.filter (·.1 ≠ key)

variable [Store σ κ α]

def keys (s : σ) : List κ :=
  (entries s).map Prod.fst

structure Shows (s : σ) (room : Nat) (list : List (κ × α)) : Prop where
  capacity : capacity s = room
  entries : entries s = list

end Store

open Store in
/-- **A store of what was used last.** Looking a key up and putting one make it the most recently
used one, asking whether it is held does not. What there is no room for is dropped, the least
recently used entry first. -/
class LawfulStore (σ : Type) (κ α : outParam Type) [DecidableEq κ] [Store σ κ α] : Prop where
  size_eq (s : σ) : size s = (entries s).length
  size_le (s : σ) : size s ≤ capacity s
  holds_iff (s : σ) (key : κ) : holds s key = true ↔ key ∈ keys s
  find?_isSome (s : σ) (key : κ) : (find? s key).isSome = true ↔ key ∈ keys s
  found {s found : σ} {key : κ} {value : α} : find? s key = some (value, found) →
    (key, value) ∈ entries s ∧ Shows found (capacity s) ((key, value) :: others key (entries s))
  empty (room : Nat) : Shows (empty room : σ) room []
  put (s : σ) (key : κ) (value : α) : Shows (put s key value) (capacity s)
    (((key, value) :: others key (entries s)).take (capacity s))
  /-- A store needs room for an entry. -/
  refused (s : σ) : resize? s 0 = none
  resized (s : σ) {room : Nat} : 0 < room →
    ∃ after, resize? s room = some after ∧ Shows after room ((entries s).take room)
  clear (s : σ) : Shows (clear s) (capacity s) []

end Synopsis
