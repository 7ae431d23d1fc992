import Mathlib.Data.List.Basic
import Synopsis.Matching

/-!
# The first outcome of each kind

What may follow an outcome is decided by what it leaves, never by what it consumed. `firsts` keeps
of the outcomes that leave the same the first one. It may be applied at once, or inside, before the
outcomes are continued: the result is the same.
-/

namespace Synopsis.Matching

@[simp] theorem after_left (before : List LeafMatch) (o : Outcome) :
    (o.after before).left = o.left := rfl

/-- The outcomes without those that leave what an earlier one leaves. -/
def firsts : List Outcome → List Outcome
  | [] => []
  | o :: os => o :: (firsts os).filter (·.left ≠ o.left)

/-- What the outcomes of a list leave. -/
abbrev lefts (l : List Outcome) : List (List Nat) := l.map Outcome.left

theorem mem_of_mem_firsts {o : Outcome} {l : List Outcome} (h : o ∈ firsts l) : o ∈ l := by
  induction l with
  | nil => exact h
  | cons p ps ih =>
    rw [firsts, List.mem_cons] at h
    rcases h with rfl | h
    · exact List.mem_cons_self
    · exact List.mem_cons_of_mem p (ih (List.mem_filter.mp h).1)

/-- Nothing that can be left is lost. -/
theorem mem_lefts_firsts {x : List Nat} {l : List Outcome} :
    x ∈ lefts (firsts l) ↔ x ∈ lefts l := by
  constructor
  · intro h
    obtain ⟨o, ho, rfl⟩ := List.mem_map.mp h
    exact List.mem_map_of_mem (mem_of_mem_firsts ho)
  · intro h
    induction l with
    | nil => exact h
    | cons p ps ih =>
      by_cases hx : x = p.left
      · rw [hx]
        exact List.mem_map_of_mem List.mem_cons_self
      · have hps : x ∈ lefts ps := by simpa [hx] using h
        obtain ⟨o, ho, rfl⟩ := List.mem_map.mp (ih hps)
        have hf : o ∈ (firsts ps).filter (·.left ≠ p.left) := by simp [ho, hx]
        exact List.mem_map_of_mem (List.mem_cons_of_mem p hf)

theorem firsts_eq_nil {l : List Outcome} : firsts l = [] ↔ l = [] := by
  cases l <;> simp [firsts]

theorem lefts_subset_of_firsts_eq {l m : List Outcome} (h : firsts l = firsts m)
    {x : List Nat} (hx : x ∈ lefts l) : x ∈ lefts m := by
  rw [← mem_lefts_firsts, ← h]
  exact mem_lefts_firsts.mpr hx

/-- Choosing by what is left may be done before or after. -/
theorem firsts_filter (q : List Nat → Bool) (l : List Outcome) :
    firsts (l.filter (q ·.left)) = (firsts l).filter (q ·.left) := by
  induction l with
  | nil => rfl
  | cons o os ih =>
    by_cases ho : q o.left = true
    · rw [List.filter_cons, if_pos ho, firsts, firsts, List.filter_cons, if_pos ho, ih]
      simp only [List.filter_filter, Bool.and_comm]
    · rw [List.filter_cons, if_neg ho, firsts, List.filter_cons, if_neg ho, ih, List.filter_filter]
      refine List.filter_congr fun p _ => ?_
      by_cases hp : p.left = o.left
      · simp [hp, ho]
      · simp [hp]

/-- The first outcome of which what is left is as wanted stays the first. -/
theorem find?_firsts (q : List Nat → Bool) (l : List Outcome) :
    (firsts l).find? (q ·.left) = l.find? (q ·.left) := by
  rw [← List.head?_filter, ← List.head?_filter, ← firsts_filter]
  cases l.filter (q ·.left) <;> rfl

theorem firsts_append (l m : List Outcome) :
    firsts (l ++ m) = firsts l ++ (firsts m).filter (·.left ∉ lefts l) := by
  induction l with
  | nil => simp [firsts]
  | cons o os ih =>
    rw [List.cons_append, firsts, ih, List.filter_append, firsts, List.cons_append,
      List.filter_filter]
    congr 2
    refine List.filter_congr fun p _ => ?_
    simp

theorem firsts_append_congr {l l' m m' : List Outcome} (hl : firsts l = firsts l')
    (hm : firsts m = firsts m') : firsts (l ++ m) = firsts (l' ++ m') := by
  rw [firsts_append, firsts_append, hl, hm]
  congr 1
  refine List.filter_congr fun p _ => ?_
  have hp : p.left ∈ lefts l ↔ p.left ∈ lefts l' :=
    ⟨lefts_subset_of_firsts_eq hl, lefts_subset_of_firsts_eq hl.symm⟩
  simp only [hp]

theorem firsts_firsts (l : List Outcome) : firsts (firsts l) = firsts l := by
  induction l with
  | nil => rfl
  | cons o os ih =>
    rw [firsts, firsts, firsts_filter (fun x => decide (x ≠ o.left)), ih, List.filter_filter]
    simp only [Bool.and_self]

theorem firsts_map_after (before : List LeafMatch) (l : List Outcome) :
    firsts (l.map (Outcome.after before)) = (firsts l).map (Outcome.after before) := by
  induction l with
  | nil => rfl
  | cons o os ih =>
    rw [List.map_cons, firsts, ih, firsts, List.map_cons, List.filter_map]
    rfl

/-- Equivalent continuations give equivalent lists. -/
theorem firsts_flatMap_congr {f g : Outcome → List Outcome} {l : List Outcome}
    (h : ∀ o ∈ l, firsts (f o) = firsts (g o)) : firsts (l.flatMap f) = firsts (l.flatMap g) := by
  induction l with
  | nil => rfl
  | cons o os ih =>
    rw [List.flatMap_cons, List.flatMap_cons]
    exact firsts_append_congr (h o List.mem_cons_self)
      (ih fun p hp => h p (List.mem_cons_of_mem o hp))

/-- Outcomes that leave what `o` leaves add nothing to what follows `o`. -/
theorem filter_flatMap_drop {f : Outcome → List Outcome}
    (hf : ∀ o p, o.left = p.left → lefts (f o) = lefts (f p)) (o : Outcome) (l : List Outcome) :
    (l.flatMap f).filter (·.left ∉ lefts (f o)) =
      ((l.filter (·.left ≠ o.left)).flatMap f).filter (·.left ∉ lefts (f o)) := by
  induction l with
  | nil => rfl
  | cons p ps ih =>
    rw [List.flatMap_cons, List.filter_append, ih]
    by_cases hp : p.left = o.left
    · have hnone : (f p).filter (·.left ∉ lefts (f o)) = [] := by
        rw [List.filter_eq_nil_iff]
        intro q hq
        rw [← hf p o hp]
        simp [List.mem_map_of_mem hq]
      rw [hnone, List.nil_append, List.filter_cons_of_neg (by simp [hp])]
    · rw [List.filter_cons_of_pos (by simp [hp]), List.flatMap_cons, List.filter_append]

/-- An outcome that leaves what an earlier one left opens nothing new. -/
theorem firsts_flatMap {f : Outcome → List Outcome}
    (hf : ∀ o p, o.left = p.left → lefts (f o) = lefts (f p)) (l : List Outcome) :
    firsts (l.flatMap f) = firsts ((firsts l).flatMap f) := by
  induction l with
  | nil => rfl
  | cons o os ih =>
    rw [List.flatMap_cons, firsts_append, ih, firsts, List.flatMap_cons, firsts_append]
    congr 1
    rw [← firsts_filter (fun x => decide (x ∉ lefts (f o))),
      ← firsts_filter (fun x => decide (x ∉ lefts (f o))), filter_flatMap_drop hf o (firsts os)]

end Synopsis.Matching
