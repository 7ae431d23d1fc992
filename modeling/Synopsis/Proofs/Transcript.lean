import Mathlib.Data.List.Nodup
import Synopsis.Action
import Synopsis.Proofs.Derivation

/-!
# What a derivation matched

The tokens that a derivation matched and those that it leaves make up the tokens it started with,
none of them twice. Every match is of a leaf of the pattern. A name whose multiplicity is at most
one matches at most that often: a sequence adds up, an alternative takes one branch, and what is
repeated counts at least twice unless it does not occur at all.
-/

namespace Synopsis

/-- The matches of a name. -/
def matchesOf (name : String) (ms : List LeafMatch) : List LeafMatch :=
  ms.filter (·.name == name)

@[simp] theorem matchesOf_append (name : String) (ms more : List LeafMatch) :
    matchesOf name (ms ++ more) = matchesOf name ms ++ matchesOf name more :=
  List.filter_append ms more

namespace Pattern

theorem leavesAll_append : ∀ ps qs : List Pattern,
    leavesAll (ps ++ qs) = leavesAll ps ++ leavesAll qs
  | [], qs => rfl
  | p :: ps, qs => by
    rw [List.cons_append, leavesAll, leavesAll, leavesAll_append ps qs, List.append_assoc]

theorem multiplicitySum_append (name : String) : ∀ ps qs : List Pattern,
    multiplicitySum name (ps ++ qs) = multiplicitySum name ps + multiplicitySum name qs
  | [], qs => by rw [List.nil_append, multiplicitySum, Nat.zero_add]
  | p :: ps, qs => by
    rw [List.cons_append, multiplicitySum, multiplicitySum, multiplicitySum_append name ps qs,
      Nat.add_assoc]

end Pattern

namespace Matching

variable {tokens : List Token}

/-- Two accounts of tokens, one after the other, make up one account. -/
theorem account_trans {left mid rest taken more : List Nat} (h : (taken ++ mid).Perm left)
    (k : (more ++ rest).Perm mid) : ((taken ++ more) ++ rest).Perm left := by
  rw [List.append_assoc]
  exact (k.append_left taken).trans h

theorem nodup_of_account {left mid taken : List Nat} (h : (taken ++ mid).Perm left)
    (hn : left.Nodup) : mid.Nodup :=
  (List.nodup_append.mp (h.nodup_iff.mpr hn)).2.1

mutual

/-- **No token is lost and none is matched twice.** -/
theorem Derives.account : ∀ {p left rest ms}, Derives tokens p left rest ms → left.Nodup →
    (ms.map LeafMatch.index ++ rest).Perm left
  | _, _, _, _, @Derives.leaf _ l left i v h, hn => by
    rw [← hn.erase_eq_filter]
    exact (List.perm_cons_erase h.mem).symm
  | _, _, _, _, .required h, hn => h.account hn
  | _, _, _, _, .optional h, hn => h.account hn
  | _, _, _, _, .shortcut h, hn => h.account hn
  | _, _, _, _, .either _ h, hn => h.account hn
  | _, _, _, _, .once h, hn => h.account hn
  | _, _, _, _, .again h k, hn => by
    have hh := h.account hn
    rw [List.map_append]
    exact account_trans hh (k.account (nodup_of_account hh hn))

theorem DerivesAll.account : ∀ {skipping ps left rest ms},
    DerivesAll tokens skipping ps left rest ms → left.Nodup →
    (ms.map LeafMatch.index ++ rest).Perm left
  | _, _, _, _, _, .nil, _ => .refl _
  | _, _, _, _, _, .cons h k, hn => by
    have hh := h.account hn
    rw [List.map_append]
    exact account_trans hh (k.account (nodup_of_account hh hn))
  | _, _, _, _, _, .skip h, hn => h.account hn

end

theorem leaves_subset {p : Pattern} {ps : List Pattern} (hp : p ∈ ps) :
    p.leaves ⊆ Pattern.leavesAll ps := by
  induction ps with
  | nil => exact nomatch hp
  | cons q qs ih =>
    intro l hl
    rw [Pattern.leavesAll]
    rcases List.mem_cons.mp hp with rfl | hp
    · exact List.mem_append_left _ hl
    · exact List.mem_append_right _ (ih hp hl)

mutual

/-- Every match is of a leaf of the pattern, which consumed that very token. -/
theorem Derives.match_mem : ∀ {p left rest ms}, Derives tokens p left rest ms →
    ∀ m ∈ ms, m.leaf ∈ p.leaves ∧ ∃ left, Consumes tokens m.leaf left m.index m.value
  | _, _, _, _, @Derives.leaf _ l left i v h, m, hm => by
    rw [List.mem_singleton.mp hm, Pattern.leaves]
    exact ⟨List.mem_singleton.mpr rfl, left, h⟩
  | _, _, _, _, .required h, m, hm => by
    rw [Pattern.leaves]
    exact h.match_mem m hm
  | _, _, _, _, .optional h, m, hm => by
    rw [Pattern.leaves]
    exact h.match_mem m hm
  | _, _, _, _, .shortcut h, m, hm => by
    rw [Pattern.leaves]
    exact h.match_mem m hm
  | _, _, _, _, .either hp h, m, hm => by
    obtain ⟨hl, hc⟩ := h.match_mem m hm
    rw [Pattern.leaves]
    exact ⟨leaves_subset hp hl, hc⟩
  | _, _, _, _, .once h, m, hm => by
    rw [Pattern.leaves]
    exact h.match_mem m hm
  | _, _, _, _, .again h k, m, hm => by
    rcases List.mem_append.mp hm with hm | hm
    · rw [Pattern.leaves]
      exact h.match_mem m hm
    · exact k.match_mem m hm

theorem DerivesAll.match_mem : ∀ {skipping ps left rest ms},
    DerivesAll tokens skipping ps left rest ms →
    ∀ m ∈ ms, m.leaf ∈ Pattern.leavesAll ps ∧ ∃ left, Consumes tokens m.leaf left m.index m.value
  | _, _, _, _, _, .nil, m, hm => nomatch hm
  | _, _, _, _, _, .cons h k, m, hm => by
    rw [Pattern.leavesAll]
    rcases List.mem_append.mp hm with hm | hm
    · obtain ⟨hl, hc⟩ := h.match_mem m hm
      exact ⟨List.mem_append_left _ hl, hc⟩
    · obtain ⟨hl, hc⟩ := k.match_mem m hm
      exact ⟨List.mem_append_right _ hl, hc⟩
  | _, _, _, _, _, .skip h, m, hm => by
    obtain ⟨hl, hc⟩ := h.match_mem m hm
    rw [Pattern.leavesAll]
    exact ⟨List.mem_append_right _ hl, hc⟩

end

theorem multiplicity_le_max (name : String) {p : Pattern} {ps : List Pattern} (hp : p ∈ ps) :
    p.multiplicity name ≤ Pattern.multiplicityMax name ps := by
  induction ps with
  | nil => exact nomatch hp
  | cons q qs ih =>
    rw [Pattern.multiplicityMax]
    rcases List.mem_cons.mp hp with rfl | hp
    · exact Nat.le_max_left _ _
    · exact Nat.le_trans (ih hp) (Nat.le_max_right _ _)

mutual

/-- **A name matches no more often than its multiplicity says**, unless that is above one. -/
theorem Derives.length_matchesOf_le (name : String) : ∀ {p left rest ms},
    Derives tokens p left rest ms → p.multiplicity name ≤ 1 →
    (matchesOf name ms).length ≤ p.multiplicity name
  | _, _, _, _, @Derives.leaf _ l left i v _, hm => by
    rw [Pattern.multiplicity]
    by_cases hl : l.name = name
    · simp [matchesOf, LeafMatch.name, hl]
    · simp [matchesOf, LeafMatch.name, hl]
  | _, _, _, _, .required h, hm => by
    rw [Pattern.multiplicity] at hm ⊢
    exact h.length_matchesOf_le name hm
  | _, _, _, _, .optional h, hm => by
    rw [Pattern.multiplicity] at hm ⊢
    exact h.length_matchesOf_le name hm
  | _, _, _, _, .shortcut h, hm => by
    rw [Pattern.multiplicity] at hm ⊢
    exact h.length_matchesOf_le name hm
  | _, _, _, _, .either hp h, hm => by
    rw [Pattern.multiplicity] at hm ⊢
    have hle := multiplicity_le_max name hp
    exact Nat.le_trans (h.length_matchesOf_le name (Nat.le_trans hle hm)) hle
  | _, _, _, _, .once h, hm => by
    rw [Pattern.multiplicity] at hm ⊢
    have hh := h.length_matchesOf_le name (by omega)
    omega
  | _, _, _, _, .again h k, hm => by
    have hk := k.length_matchesOf_le name hm
    rw [Pattern.multiplicity] at hm hk ⊢
    have hh := h.length_matchesOf_le name (by omega)
    rw [matchesOf_append, List.length_append]
    omega

theorem DerivesAll.length_matchesOf_le (name : String) : ∀ {skipping ps left rest ms},
    DerivesAll tokens skipping ps left rest ms → Pattern.multiplicitySum name ps ≤ 1 →
    (matchesOf name ms).length ≤ Pattern.multiplicitySum name ps
  | _, _, _, _, _, .nil, _ => Nat.zero_le _
  | _, _, _, _, _, .cons h k, hm => by
    rw [Pattern.multiplicitySum] at hm ⊢
    have hh := h.length_matchesOf_le name (by omega)
    have hk := k.length_matchesOf_le name (by omega)
    rw [matchesOf_append, List.length_append]
    omega
  | _, _, _, _, _, .skip h, hm => by
    rw [Pattern.multiplicitySum] at hm ⊢
    have hh := h.length_matchesOf_le name (by omega)
    omega

end

end Matching

end Synopsis
