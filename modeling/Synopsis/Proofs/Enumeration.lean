import Synopsis.Proofs.Consumption
import Synopsis.Proofs.Firsts

/-!
# Plain backtracking

`enumerate` lists the ways to match a pattern as plain backtracking finds them: no memo, nothing
dropped, a repetition by recursion on its own outcomes. Two enumerations agree if they have the same
first outcome for everything that can be left, in the same order. Every way to combine enumerations
respects agreement.
-/

namespace Synopsis.Matching

/-- The outcomes from any tokens left, in the order of search. None leaves more than there was, so
that a round of a repetition that changes what is left makes it shorter. -/
structure Enumeration where
  list : List Nat → List Outcome
  shrinks : ∀ left, ∀ o ∈ list left, o.left.Sublist left

namespace Enumeration

theorem shorter (e : Enumeration) {left : List Nat} {o : Outcome} (h : o ∈ e.list left)
    (hne : o.left ≠ left) : o.left.length < left.length := by
  have hs := e.shrinks left o h
  have hle := hs.length_le
  have hlen : o.left.length ≠ left.length := fun heq => hne (hs.eq_of_length heq)
  omega

/-- No outcome. -/
def nothing : Enumeration where
  list _ := []
  shrinks _ _ h := nomatch h

/-- The outcome that consumes nothing. -/
def finish : Enumeration where
  list left := [⟨left, []⟩]
  shrinks left o h := by
    rw [List.mem_singleton] at h
    rw [h]

/-- The outcome of a leaf, if it has one. -/
def ofLeaf (tokens : List Token) (l : Leaf) : Enumeration where
  list left := (leafOutcome? tokens l left).toList
  shrinks left o h := by
    rw [Option.mem_toList] at h
    obtain ⟨i, v, -, rfl⟩ := leafOutcome?_eq_some.mp h
    exact List.filter_sublist

/-- One enumeration from what each outcome of the other leaves. -/
def followedBy (e f : Enumeration) : Enumeration where
  list left := (e.list left).flatMap fun o => (f.list o.left).map (Outcome.after o.matched)
  shrinks left o h := by
    obtain ⟨head, hh, ho⟩ := List.mem_flatMap.mp h
    obtain ⟨tail, ht, rfl⟩ := List.mem_map.mp ho
    exact (f.shrinks head.left tail ht).trans (e.shrinks left head hh)

/-- One enumeration and then the other. -/
def orElse (e f : Enumeration) : Enumeration where
  list left := e.list left ++ f.list left
  shrinks left o h := by
    rcases List.mem_append.mp h with h | h
    · exact e.shrinks left o h
    · exact f.shrinks left o h

/-- All rounds of a repetition: after each round all that further rounds give, then the round
itself. A round that leaves what there was is the last one. -/
def rounds (e : Enumeration) (left : List Nat) : List Outcome :=
  (e.list left).attach.flatMap fun ⟨o, _⟩ =>
    if o.left = left then [o]
    else (rounds e o.left).map (Outcome.after o.matched) ++ [o]
termination_by left.length
decreasing_by exact e.shorter ‹_› ‹_›

theorem rounds_eq (e : Enumeration) (left : List Nat) :
    e.rounds left = (e.list left).flatMap fun o =>
      if o.left = left then [o] else (e.rounds o.left).map (Outcome.after o.matched) ++ [o] := by
  rw [rounds]
  simp only [List.flatMap_subtype, List.unattach_attach]

/-- What a round leads to: itself, and before that what further rounds give if it changed what is
left. -/
def onward (e : Enumeration) (left : List Nat) (o : Outcome) : List Outcome :=
  if o.left = left then [o] else (e.rounds o.left).map (Outcome.after o.matched) ++ [o]

theorem rounds_eq_onward (e : Enumeration) (left : List Nat) :
    e.rounds left = (e.list left).flatMap (e.onward left) :=
  e.rounds_eq left

theorem lefts_onward_last {e : Enumeration} {left : List Nat} {o : Outcome} (h : o.left = left) :
    lefts (e.onward left o) = [left] := by
  simp [onward, h]

theorem lefts_onward {e : Enumeration} {left : List Nat} {o : Outcome} (h : o.left ≠ left) :
    lefts (e.onward left o) = lefts (e.rounds o.left) ++ [o.left] := by
  simp [onward, h, Function.comp_def]

/-- What holds of the tokens left if it holds after every round that changes them holds always. -/
theorem rounds_induction (e : Enumeration) {motive : List Nat → Prop}
    (step : ∀ left, (∀ o ∈ e.list left, o.left ≠ left → motive o.left) → motive left)
    (left : List Nat) : motive left := by
  induction hn : left.length using Nat.strongRecOn generalizing left with
  | _ n ih =>
    refine step left fun o ho hne => ?_
    have hlen := e.shorter ho hne
    exact ih o.left.length (hn ▸ hlen) o.left rfl

/-- What rounds give is what one round gives, or what further rounds give after it. -/
theorem mem_rounds {e : Enumeration} {left : List Nat} {o : Outcome} :
    o ∈ e.rounds left ↔ o ∈ e.list left ∨ ∃ first ∈ e.list left, first.left ≠ left ∧
      o ∈ (e.rounds first.left).map (Outcome.after first.matched) := by
  rw [rounds_eq, List.mem_flatMap]
  constructor
  · rintro ⟨first, hf, ho⟩
    by_cases heq : first.left = left
    · rw [if_pos heq, List.mem_singleton] at ho
      exact .inl (ho ▸ hf)
    · rw [if_neg heq, List.mem_append, List.mem_singleton] at ho
      rcases ho with ho | rfl
      · exact .inr ⟨first, hf, heq, ho⟩
      · exact .inl hf
  · rintro (ho | ⟨first, hf, hne, ho⟩)
    · refine ⟨o, ho, ?_⟩
      by_cases heq : o.left = left
      · simp [heq]
      · simp [heq]
    · refine ⟨first, hf, ?_⟩
      rw [if_neg hne]
      exact List.mem_append_left _ ho

theorem sublist_of_mem_rounds (e : Enumeration) (left : List Nat) :
    ∀ o ∈ e.rounds left, o.left.Sublist left := by
  induction left using e.rounds_induction with
  | step left ih =>
    intro o ho
    rcases mem_rounds.mp ho with ho | ⟨first, hf, hne, ho⟩
    · exact e.shrinks left o ho
    · obtain ⟨more, hm, rfl⟩ := List.mem_map.mp ho
      exact (ih first hf hne more hm).trans (e.shrinks left first hf)

/-- One or more rounds. -/
def oneOrMore (e : Enumeration) : Enumeration where
  list := e.rounds
  shrinks := e.sublist_of_mem_rounds

/-- An enumeration without repetitions of what is left. -/
def distinct (e : Enumeration) : Enumeration where
  list left := firsts (e.list left)
  shrinks left o h := e.shrinks left o (mem_of_mem_firsts h)

/-- **The same first outcomes** in the same order, whatever tokens are left. -/
def Agree (e f : Enumeration) : Prop :=
  ∀ left, firsts (e.list left) = firsts (f.list left)

namespace Agree

variable {e e' f f' : Enumeration}

theorem refl (e : Enumeration) : Agree e e := fun _ => rfl

theorem distinct (h : Agree e f) : Agree e.distinct f := fun left =>
  (firsts_firsts (e.list left)).trans (h left)

theorem orElse (h : Agree e e') (k : Agree f f') : Agree (e.orElse f) (e'.orElse f') :=
  fun left => firsts_append_congr (h left) (k left)

theorem followedBy (h : Agree e e') (k : Agree f f') :
    Agree (e.followedBy f) (e'.followedBy f') := by
  intro left
  have hlefts : ∀ o p : Outcome, o.left = p.left →
      lefts ((f'.list o.left).map (Outcome.after o.matched)) =
        lefts ((f'.list p.left).map (Outcome.after p.matched)) := by
    intro o p hop
    simp [lefts, hop, Function.comp_def]
  calc firsts ((e.followedBy f).list left)
      = firsts ((e.list left).flatMap fun o => (f'.list o.left).map (Outcome.after o.matched)) :=
        firsts_flatMap_congr fun o _ => by
          rw [firsts_map_after, firsts_map_after, k o.left]
    _ = firsts ((firsts (e'.list left)).flatMap fun o =>
          (f'.list o.left).map (Outcome.after o.matched)) := by
        rw [firsts_flatMap hlefts, h left]
    _ = firsts ((e'.followedBy f').list left) := (firsts_flatMap hlefts _).symm

theorem oneOrMore (h : Agree e f) : Agree e.oneOrMore f.oneOrMore := by
  intro left
  induction left using f.rounds_induction with
  | step left ih =>
    have hlefts : ∀ o p : Outcome, o.left = p.left →
        lefts (e.onward left o) = lefts (e.onward left p) := by
      intro o p hop
      by_cases hp : p.left = left
      · rw [lefts_onward_last hp, lefts_onward_last (hop.trans hp)]
      · rw [lefts_onward hp, lefts_onward (hop ▸ hp), hop]
    have honward : ∀ o ∈ f.list left, firsts (e.onward left o) = firsts (f.onward left o) := by
      intro o ho
      unfold onward
      by_cases heq : o.left = left
      · rw [if_pos heq, if_pos heq]
      · rw [if_neg heq, if_neg heq]
        refine firsts_append_congr ?_ rfl
        rw [firsts_map_after, firsts_map_after]
        exact congrArg _ (ih o ho heq)
    calc firsts (e.rounds left)
        = firsts ((e.list left).flatMap (e.onward left)) := by rw [rounds_eq_onward]
      _ = firsts ((firsts (f.list left)).flatMap (e.onward left)) := by
          rw [firsts_flatMap hlefts, h left]
      _ = firsts ((f.list left).flatMap (e.onward left)) := (firsts_flatMap hlefts _).symm
      _ = firsts ((f.list left).flatMap (f.onward left)) := firsts_flatMap_congr honward
      _ = firsts (f.rounds left) := by rw [rounds_eq_onward]

end Agree

end Enumeration

section

variable (tokens : List Token)

mutual

/-- **The ways to match a pattern**, as plain backtracking finds them. -/
def enumerate : Pattern → Enumeration
  | .leaf l => .ofLeaf tokens l
  | .required ps => enumerateAll false ps
  | .optional ps => enumerateAll true ps
  | .shortcut ps => enumerateAll true ps
  | .either ps => enumerateAny ps
  | .oneOrMore p => (enumerate p).oneOrMore

/-- The ways to match patterns one after the other; if skipping is allowed, each may be left out
once its own ways are tried. -/
def enumerateAll (skipping : Bool) : List Pattern → Enumeration
  | [] => .finish
  | p :: ps =>
    ((enumerate p).followedBy (enumerateAll skipping ps)).orElse
      (if skipping then enumerateAll skipping ps else .nothing)

/-- The ways to match each pattern in turn. -/
def enumerateAny : List Pattern → Enumeration
  | [] => .nothing
  | p :: ps => (enumerate p).orElse (enumerateAny ps)

end

end

end Synopsis.Matching
