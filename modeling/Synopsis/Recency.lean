import Synopsis.Store

/-!
# Entries by recency

A store that keeps its entries in a list, in the order of their last use.
-/

namespace Synopsis

/-- Entries with distinct keys, the most recently used one first. -/
structure Recency (κ α : Type) where
  capacity : Nat
  entries : List (κ × α)
  distinct : (entries.map Prod.fst).Nodup
  fits : entries.length ≤ capacity

namespace Recency

variable {κ α : Type}

def empty (capacity : Nat) : Recency κ α :=
  ⟨capacity, [], List.nodup_nil, Nat.zero_le _⟩

/-- The first entries only, as many as the capacity allows. -/
def keep (capacity : Nat) (entries : List (κ × α)) (h : (entries.map Prod.fst).Nodup) :
    Recency κ α where
  capacity
  entries := entries.take capacity
  distinct := h.sublist ((List.take_sublist _ _).map _)
  fits := List.length_take_le _ _

/-- The store with another capacity; it is refused if there is no room for an entry. -/
def resize? (r : Recency κ α) (capacity : Nat) : Option (Recency κ α) :=
  if capacity = 0 then none else some (keep capacity r.entries r.distinct)

def refusal : String := "Size should be a positive number"

variable [DecidableEq κ]

theorem nodup_cons_others (key : κ) (value : α) {entries : List (κ × α)}
    (h : (entries.map Prod.fst).Nodup) :
    (((key, value) :: Store.others key entries).map Prod.fst).Nodup := by
  rw [List.map_cons, List.nodup_cons]
  refine ⟨?_, h.sublist (List.filter_sublist.map _)⟩
  intro hmem
  obtain ⟨e, he, hkey⟩ := List.mem_map.mp hmem
  have hne := (List.mem_filter.mp he).2
  simp [hkey] at hne

/-- The store with the entry as the most recently used one. -/
def put (r : Recency κ α) (key : κ) (value : α) : Recency κ α :=
  keep r.capacity ((key, value) :: Store.others key r.entries)
    (nodup_cons_others key value r.distinct)

/-- The value of a key, and the store with its entry as the most recently used one. -/
def find? (r : Recency κ α) (key : κ) : Option (α × Recency κ α) :=
  (r.entries.find? (·.1 = key)).map fun (_, value) => (value, r.put key value)

instance : Store (Recency κ α) κ α where
  empty := empty
  capacity := capacity
  entries := entries
  size r := r.entries.length
  holds r key := r.entries.any (·.1 = key)
  find? := find?
  put := put
  resize? := resize?
  clear r := empty r.capacity

theorem find?_isSome_iff (r : Recency κ α) (key : κ) :
    (r.find? key).isSome = true ↔ key ∈ Store.keys r := by
  rw [find?, Option.isSome_map, List.find?_isSome, Store.keys, List.mem_map]
  simp only [decide_eq_true_eq]
  rfl

/-- The entry of a key that is found takes no more room than before. -/
theorem shows_of_find? {r found : Recency κ α} {key : κ} {value : α}
    (h : r.find? key = some (value, found)) :
    (key, value) ∈ r.entries ∧
      Store.Shows found r.capacity ((key, value) :: Store.others key r.entries) := by
  obtain ⟨⟨k, v⟩, hfound, heq⟩ := Option.map_eq_some_iff.mp h
  obtain ⟨rfl, rfl⟩ := Prod.mk.inj heq
  have hk : k = key := by simpa using List.find?_some hfound
  have hmem : (key, v) ∈ r.entries := hk ▸ List.mem_of_find?_eq_some hfound
  have hfewer : (Store.others key r.entries).length < r.entries.length :=
    List.length_filter_lt_length_iff_exists.mpr ⟨(key, v), hmem, by simp⟩
  have hfits := r.fits
  refine ⟨hmem, rfl, List.take_of_length_le ?_⟩
  rw [List.length_cons]
  omega

instance : LawfulStore (Recency κ α) κ α where
  size_eq _ := rfl
  size_le r := r.fits
  holds_iff r key := by
    show r.entries.any (·.1 = key) = true ↔ key ∈ r.entries.map Prod.fst
    rw [List.any_eq_true, List.mem_map]
    simp only [decide_eq_true_eq]
  find?_isSome := find?_isSome_iff
  found := shows_of_find?
  empty _ := ⟨rfl, rfl⟩
  put _ _ _ := ⟨rfl, rfl⟩
  refused _ := rfl
  resized r _ hroom := ⟨_, if_neg (Nat.ne_of_gt hroom), rfl, rfl⟩
  clear _ := ⟨rfl, rfl⟩

end Recency

end Synopsis
