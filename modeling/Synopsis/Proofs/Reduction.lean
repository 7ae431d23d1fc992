import Synopsis.Bindings
import Synopsis.Proofs.Transcript

/-!
# The value of each name

The matches of a command line are folded into the bindings one at a time, those of all names mixed.
`reduce_eq` says what comes of it: a name has the total of its own matches, in the order of their
tokens, and the other names do not matter.
-/

namespace Synopsis

namespace Keyed

variable {κ α β : Type} [DecidableEq κ]

/-- A put among entries with distinct keys changes the entry with the key and no other. -/
theorem put_map_entries {k : κ} {l : List (κ × α)} (hn : (l.map Prod.fst).Nodup)
    (hk : k ∈ l.map Prod.fst) (f : κ × α → β) (v : β) :
    put Prod.fst (k, v) (l.map fun x => (x.1, f x)) =
      l.map fun x => (x.1, if x.1 = k then v else f x) := by
  induction l with
  | nil => exact nomatch hk
  | cons x xs ih =>
    rw [List.map_cons, List.nodup_cons] at hn
    rw [List.map_cons, List.map_cons, put]
    by_cases hx : x.1 = k
    · have hxs : ∀ y ∈ xs, ¬ y.1 = k := by
        intro y hy hyk
        exact hn.1 (hx ▸ hyk ▸ List.mem_map_of_mem hy)
      rw [if_pos hx, if_pos hx, ← hx]
      congr 1
      refine List.map_congr_left fun y hy => ?_
      rw [if_neg (hx ▸ hxs y hy)]
    · have hxs : k ∈ xs.map Prod.fst := by
        rcases List.mem_cons.mp hk with h | h
        · exact absurd h.symm hx
        · exact h
      rw [if_neg hx, if_neg hx, ih hn.2 hxs]

theorem get?_map_entries (k : κ) (l : List (κ × α)) (f : κ × α → β) :
    get? Prod.fst k (l.map fun x => (x.1, f x)) =
      (get? Prod.fst k l).map fun x => (x.1, f x) := by
  rw [get?, get?, List.find?_map]
  rfl

end Keyed

namespace Action

/-- The value after more matches; `first` says that there was none before. -/
def foldAll (a : Action) (current : Value) (first : Bool) : List Value → Value
  | [] => current
  | v :: vs => a.foldAll (a.fold current v first) false vs

/-- **What the matches of a name amount to**: the initial value if there is none, and otherwise the
last one, the list or the number of them. -/
def total (a : Action) : List Value → Value
  | [] => a.initial
  | v :: vs =>
    match a with
    | store _ => vs.getLastD v
    | append _ => .list (v :: vs)
    | count _ => .count (v :: vs).length

theorem foldAll_store (w current : Value) (first : Bool) (vs : List Value) :
    (store w).foldAll current first vs = vs.getLastD current := by
  induction vs generalizing current first with
  | nil => rfl
  | cons v vs ih =>
    rw [foldAll, ih, List.getLastD_cons]
    rfl

theorem foldAll_append (ws xs vs : List Value) :
    (append ws).foldAll (.list xs) false vs = .list (xs ++ vs) := by
  induction vs generalizing xs with
  | nil => rw [foldAll, List.append_nil]
  | cons v vs ih =>
    show (append ws).foldAll (.list (xs ++ [v])) false vs = _
    rw [ih, List.append_assoc, List.singleton_append]

theorem foldAll_count (w n : Int) (vs : List Value) :
    (count w).foldAll (.count n) false vs = .count (n + vs.length) := by
  induction vs generalizing n with
  | nil => simp [foldAll]
  | cons v vs ih =>
    show (count w).foldAll (.count (n + 1)) false vs = _
    rw [ih, List.length_cons]
    congr 1
    omega

theorem foldAll_initial (a : Action) (vs : List Value) :
    a.foldAll a.initial true vs = a.total vs := by
  cases vs with
  | nil => rfl
  | cons v vs =>
    cases a with
    | store w => exact foldAll_store w v false vs
    | append ws => exact foldAll_append ws [v] vs
    | count w =>
      show (count w).foldAll (.count 1) false vs = .count ((v :: vs).length : Nat)
      rw [foldAll_count, List.length_cons]
      congr 1
      omega

end Action

/-- The values that the matches of a name give. -/
def valuesOf (name : String) (ms : List LeafMatch) : List Value :=
  (matchesOf name ms).map LeafMatch.value

namespace Bindings

theorem inOrder_perm (ms : List LeafMatch) : (inOrder ms).Perm ms :=
  List.mergeSort_perm ms _

theorem inOrder_pairwise (ms : List LeafMatch) :
    (inOrder ms).Pairwise fun m q => m.index ≤ q.index := by
  have h := @List.pairwise_mergeSort LeafMatch (fun a b => decide (a.index ≤ b.index))
    (by simp; omega) (by simp; omega) ms
  exact h.imp of_decide_eq_true

/-- Matches of distinct tokens are in strict order. -/
theorem inOrder_strict {ms : List LeafMatch} (h : (ms.map LeafMatch.index).Nodup) :
    (inOrder ms).Pairwise fun m q => m.index < q.index := by
  have hn : ((inOrder ms).map LeafMatch.index).Nodup :=
    ((inOrder_perm ms).map LeafMatch.index).nodup_iff.mpr h
  have hne := List.pairwise_map.mp hn
  exact (inOrder_pairwise ms).imp₂ (fun m q hle hne => Nat.lt_of_le_of_ne hle hne) hne

/-- One match after the other folds its value into that of its name. -/
theorem foldMatches_eq {actions : List (String × Action)} (hn : (actions.map Prod.fst).Nodup)
    {ms : List LeafMatch} (hms : ∀ m ∈ ms, m.name ∈ actions.map Prod.fst) (touched : List String)
    (f : String × Action → Value) :
    foldMatches actions touched (actions.map fun x => (x.1, f x)) ms =
      .ok (actions.map fun x =>
        (x.1, x.2.foldAll (f x) (!touched.contains x.1) (valuesOf x.1 ms))) := by
  induction ms generalizing touched f with
  | nil => rfl
  | cons m ms ih =>
    have hm := hms m List.mem_cons_self
    obtain ⟨x, hx, hxm⟩ := List.mem_map.mp hm
    have hget := Keyed.get?_eq_some hn hx
    rw [hxm] at hget
    have hcurrent : Bindings.get? (actions.map fun x => (x.1, f x)) m.name = some (f x) := by
      rw [Bindings.get?, Keyed.get?_map_entries, hget]
      rfl
    rw [foldMatches, hget]
    simp only [hcurrent, Option.getD_some]
    rw [Bindings.set, Keyed.put_map_entries hn hm, ih fun q hq => hms q (List.mem_cons_of_mem m hq)]
    congr 1
    refine List.map_congr_left fun y hy => ?_
    congr 1
    by_cases hym : y.1 = m.name
    · have hyx : y = x := by
        have := Keyed.get?_eq_some hn hy
        rw [hym, hget] at this
        exact (Option.some.inj this).symm
      subst hyx
      simp [valuesOf, matchesOf, hym, Action.foldAll]
    · have hmy : ¬ m.name = y.1 := fun h => hym h.symm
      simp [valuesOf, matchesOf, hym, hmy]

/-- Started from nothing, every name has the total of its matches so far. -/
theorem foldMatches_initial {actions : List (String × Action)}
    (hn : (actions.map Prod.fst).Nodup) {ms : List LeafMatch}
    (hms : ∀ m ∈ ms, m.name ∈ actions.map Prod.fst) :
    foldMatches actions [] (initial actions) ms =
      .ok (actions.map fun x => (x.1, x.2.total (valuesOf x.1 ms))) := by
  show foldMatches actions [] (actions.map fun x => (x.1, x.2.initial)) ms = _
  rw [foldMatches_eq hn hms]
  congr 1
  refine List.map_congr_left fun x _ => ?_
  rw [← Action.foldAll_initial]
  rfl

/-- **Every name has the total of its own matches.** No match of a name without an action occurs, so
the matches are not refused. -/
theorem reduce_eq {actions : List (String × Action)} (hn : (actions.map Prod.fst).Nodup)
    {ms : List LeafMatch} (hms : ∀ m ∈ ms, m.name ∈ actions.map Prod.fst) :
    reduce ms actions =
      .ok (actions.map fun x => (x.1, x.2.total (valuesOf x.1 (inOrder ms)))) := by
  have hsorted : ∀ m ∈ inOrder ms, m.name ∈ actions.map Prod.fst := by
    intro m hm
    exact hms m (List.mem_mergeSort.mp hm)
  exact foldMatches_initial hn hsorted

end Bindings

end Synopsis
