import Mathlib.Data.List.Forall2
import Mathlib.Data.List.Perm.Basic
import Mathlib.Logic.Equiv.Fin.Basic
import Synopsis.Proofs.Binding

/-!
# Options stand anywhere

A rearrangement of a command line keeps the order of the positional tokens and, for each option, the
order of its tokens, and may do anything else. It takes the first token of every kind that a leaf
looks for to the first one again. So the ways to match a pattern are taken to the ways to match it
after the rearrangement, one by one, and the order of search stays the same. The tokens left are
held in the order of their places on both sides, which settles what is left by what it consists of.
-/

namespace Synopsis

/-- **The same tokens in another order**, with the positional ones in the order they had and
those of each option too. -/
structure Rearrangement (xs ys : List Token) where
  place : Fin xs.length ≃ Fin ys.length
  same : ∀ i, ys[place i] = xs[i]
  positional : ∀ i j, i < j → xs[i].isPositional = true → xs[j].isPositional = true →
    place i < place j
  options : ∀ name i j, i < j → xs[i].isOptionOf name = true → xs[j].isOptionOf name = true →
    place i < place j

namespace Rearrangement

variable {xs ys : List Token} (r : Rearrangement xs ys)

/-- Where the token at a place goes. -/
def target (i : Nat) : Nat :=
  if h : i < xs.length then r.place ⟨i, h⟩ else i

/-- A match after the rearrangement. -/
def move (m : LeafMatch) : LeafMatch :=
  { m with index := r.target m.index }

theorem length_eq (r : Rearrangement xs ys) : xs.length = ys.length :=
  Fin.equiv_iff_eq.mp ⟨r.place⟩

theorem getElem?_target (i : Nat) : ys[r.target i]? = xs[i]? := by
  rw [target]
  by_cases h : i < xs.length
  · rw [dif_pos h, List.getElem?_eq_getElem (r.place ⟨i, h⟩).isLt, List.getElem?_eq_getElem h]
    exact congrArg some (r.same ⟨i, h⟩)
  · have hy : ys.length ≤ i := r.length_eq ▸ Nat.not_lt.mp h
    rw [dif_neg h, List.getElem?_eq_none hy, List.getElem?_eq_none (Nat.not_lt.mp h)]

theorem target_injective : Function.Injective r.target := by
  intro i j hij
  have hlen := r.length_eq
  rw [target, target] at hij
  by_cases hi : i < xs.length <;> by_cases hj : j < xs.length
  · rw [dif_pos hi, dif_pos hj] at hij
    exact Fin.val_eq_of_eq (r.place.injective (Fin.ext hij))
  · rw [dif_pos hi, dif_neg hj] at hij
    have hlt := (r.place ⟨i, hi⟩).isLt
    omega
  · rw [dif_neg hi, dif_pos hj] at hij
    have hlt := (r.place ⟨j, hj⟩).isLt
    omega
  · rwa [dif_neg hi, dif_neg hj] at hij

/-- Two tokens of the kind that a leaf looks for stay in order. -/
theorem target_lt (l : Leaf) {i j : Nat} {t u : Token} (hij : i < j) (hi : xs[i]? = some t)
    (hj : xs[j]? = some u) (ht : l.kind t = true) (hu : l.kind u = true) :
    r.target i < r.target j := by
  obtain ⟨hil, rfl⟩ := List.getElem?_eq_some_iff.mp hi
  obtain ⟨hjl, rfl⟩ := List.getElem?_eq_some_iff.mp hj
  rw [target, target, dif_pos hil, dif_pos hjl]
  cases l with
  | command name => exact r.positional ⟨i, hil⟩ ⟨j, hjl⟩ hij ht hu
  | argument name => exact r.positional ⟨i, hil⟩ ⟨j, hjl⟩ hij ht hu
  | option o => exact r.options o.name ⟨i, hil⟩ ⟨j, hjl⟩ hij ht hu

/-- The same tokens are left before and after the rearrangement. -/
structure Carries (left left' : List Nat) : Prop where
  sorted : left.Pairwise (· < ·)
  sorted' : left'.Pairwise (· < ·)
  perm : left'.Perm (left.map r.target)

namespace Carries

variable {r} {left left' mid mid' : List Nat}

theorem mem_iff (h : r.Carries left left') {i : Nat} : r.target i ∈ left' ↔ i ∈ left := by
  rw [h.perm.mem_iff, List.mem_map_of_injective r.target_injective]

theorem isEmpty_eq (h : r.Carries left left') : left'.isEmpty = left.isEmpty := by
  rw [h.perm.isEmpty_eq, List.isEmpty_map]

/-- What is left settles what is left after the rearrangement, and the other way round. -/
theorem eq_iff (h : r.Carries left left') (k : r.Carries mid mid') : mid' = left' ↔ mid = left := by
  constructor
  · rintro rfl
    have hp : (mid.map r.target).Perm (left.map r.target) := k.perm.symm.trans h.perm
    exact ((List.map_perm_map_iff r.target_injective).mp hp).eq_of_pairwise
      (fun a b _ _ hab hba => absurd hab (Nat.lt_asymm hba)) k.sorted h.sorted
  · rintro rfl
    exact (k.perm.trans h.perm.symm).eq_of_pairwise
      (fun a b _ _ hab hba => absurd hab (Nat.lt_asymm hba)) k.sorted' h.sorted'

theorem remove (h : r.Carries left left') (i : Nat) :
    r.Carries (left.filter (· != i)) (left'.filter (· != r.target i)) := by
  refine ⟨h.sorted.filter _, h.sorted'.filter _, ?_⟩
  have hf : (left.filter (· != i)).map r.target = (left.map r.target).filter (· != r.target i) := by
    rw [List.filter_map]
    congr 1
    refine List.filter_congr fun j _ => ?_
    rw [Function.comp_apply, bne, bne, Bool.not_inj_iff]
    exact Bool.eq_iff_iff.mpr (by simp [r.target_injective.eq_iff])
  rw [hf]
  exact h.perm.filter _

/-- **The first token of a kind is taken to the first token of the kind.** -/
theorem firstLeft_iff (h : r.Carries left left') (l : Leaf) {i : Nat} {t : Token} :
    Matching.FirstLeft ys l.kind left' (r.target i) t ↔ Matching.FirstLeft xs l.kind left i t := by
  rw [Matching.firstLeft_iff h.sorted, Matching.firstLeft_iff h.sorted', h.mem_iff,
    r.getElem?_target]
  refine and_congr_right fun hi => and_congr_right fun ht => and_congr_right fun hk => ?_
  constructor
  · intro hb j hj hji u hu
    by_contra hku
    have hlt := r.target_lt l hji hu ht (Bool.not_eq_false _ ▸ hku) hk
    exact hku (hb (r.target j) (h.mem_iff.mpr hj) hlt u (r.getElem?_target j ▸ hu))
  · intro hb j' hj' hlt u hu
    obtain ⟨j, hj, rfl⟩ := List.mem_map.mp (h.perm.mem_iff.mp hj')
    rw [r.getElem?_target] at hu
    by_contra hku
    rcases Nat.lt_trichotomy j i with hji | rfl | hij
    · exact hku (hb j hj hji u hu)
    · omega
    · have hgt := r.target_lt l hij ht hu hk (Bool.not_eq_false _ ▸ hku)
      omega

end Carries

end Rearrangement

end Synopsis
