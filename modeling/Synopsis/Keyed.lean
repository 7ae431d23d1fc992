/-!
# Lists with a key

A table keeps its entries in the order in which their keys first came up: putting an entry replaces
the one with its key where that stands, and goes to the end if there is none.
-/

namespace Synopsis.Keyed

variable {α κ : Type} [DecidableEq κ]

/-- The list with the entry in place of the one that has its key, or at the end. -/
def put (key : α → κ) (x : α) : List α → List α
  | [] => [x]
  | y :: ys => if key y = key x then x :: ys else y :: put key x ys

def get? (key : α → κ) (k : κ) (l : List α) : Option α :=
  l.find? (key · = k)

def putAll (key : α → κ) (xs l : List α) : List α :=
  xs.foldl (fun l x => put key x l) l

/-- A key keeps its place, and a new key comes last. -/
theorem map_put (key : α → κ) (x : α) (l : List α) :
    (put key x l).map key = if key x ∈ l.map key then l.map key else l.map key ++ [key x] := by
  induction l with
  | nil => rfl
  | cons y ys ih =>
    by_cases hy : key y = key x
    · simp [put, hy]
    · have hx : key x ≠ key y := fun h => hy h.symm
      by_cases hm : key x ∈ ys.map key
      · simp only [put, hy, if_false, List.map_cons, ih, hm, if_true, List.mem_cons, or_true]
      · simp only [put, hy, if_false, List.map_cons, ih, hm, List.mem_cons, hx, or_self,
          List.cons_append]

theorem nodup_put (key : α → κ) (x : α) {l : List α} (h : (l.map key).Nodup) :
    ((put key x l).map key).Nodup := by
  rw [map_put]
  by_cases hx : key x ∈ l.map key
  · rwa [if_pos hx]
  · rw [if_neg hx, List.nodup_append]
    refine ⟨h, List.nodup_cons.mpr ⟨List.not_mem_nil, List.nodup_nil⟩, ?_⟩
    intro a ha b hb hab
    rw [List.mem_singleton] at hb
    exact hx (hb ▸ hab ▸ ha)

theorem nodup_putAll (key : α → κ) (xs : List α) {l : List α} (h : (l.map key).Nodup) :
    ((putAll key xs l).map key).Nodup := by
  induction xs generalizing l with
  | nil => exact h
  | cons x xs ih => exact ih (nodup_put key x h)

/-- After a put the key holds the new entry and the other keys what they held. -/
theorem get?_put (key : α → κ) (x : α) (k : κ) (l : List α) :
    get? key k (put key x l) = if key x = k then some x else get? key k l := by
  induction l with
  | nil => by_cases hk : key x = k <;> simp [put, get?, hk]
  | cons y ys ih =>
    by_cases hy : key y = key x
    · rw [put, if_pos hy]
      by_cases hk : key x = k <;> simp [get?, hy, hk]
    · rw [put, if_neg hy]
      by_cases hk : key y = k
      · have hx : key x ≠ k := fun h => hy (hk.trans h.symm)
        simp [get?, hk, hx]
      · simpa [get?, hk] using ih

/-- Among entries with distinct keys an entry is found by its key. -/
theorem get?_eq_some {key : α → κ} {l : List α} (hn : (l.map key).Nodup) {x : α} (hx : x ∈ l) :
    get? key (key x) l = some x := by
  induction l with
  | nil => exact nomatch hx
  | cons y ys ih =>
    rw [List.map_cons, List.nodup_cons] at hn
    rw [get?, List.find?_cons]
    rcases List.mem_cons.mp hx with rfl | hx
    · simp
    · have hne : ¬ key y = key x := fun h => hn.1 (h ▸ List.mem_map_of_mem hx)
      rw [decide_eq_false hne]
      exact ih hn.2 hx

theorem get?_eq_none {key : α → κ} {k : κ} {l : List α} :
    get? key k l = none ↔ ∀ x ∈ l, key x ≠ k := by
  rw [get?, List.find?_eq_none]
  simp only [decide_eq_true_eq, ne_eq]

theorem mem_of_get? {key : α → κ} {k : κ} {l : List α} {x : α} (h : get? key k l = some x) :
    x ∈ l ∧ key x = k := by
  rw [get?] at h
  have hkey := List.find?_some h
  exact ⟨List.mem_of_find?_eq_some h, of_decide_eq_true hkey⟩

/-- The keys are those under which an entry is found. -/
theorem mem_map_iff {key : α → κ} {k : κ} {l : List α} :
    k ∈ l.map key ↔ ∃ x, get? key k l = some x := by
  rw [List.mem_map]
  constructor
  · rintro ⟨x, hx, hk⟩
    cases hget : get? key k l with
    | none => exact absurd hk (get?_eq_none.mp hget x hx)
    | some y => exact ⟨y, rfl⟩
  · rintro ⟨x, hx⟩
    exact ⟨x, mem_of_get? hx⟩

end Synopsis.Keyed
