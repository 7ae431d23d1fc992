import Synopsis.Proofs.Meaning

/-!
# What a search looks at

Whatever an answer of a search leaves was left before, so all parts of a search are asked about
tokens that were left when it began. Hence a search depends on what these tokens say and on nothing
else: neither the spelling of options nor what stands elsewhere, if anything, makes a difference.
-/

namespace Synopsis

namespace Search

variable {μ α β : Type} {ok : α → Prop} {s : Search μ α}

/-- **Every answer meets a condition**, whatever memos the search is resumed with. -/
inductive All (ok : α → Prop) : Search μ α → Prop
  | done {memo} : All ok (.done memo)
  | yield {value memo resume} : ok value → (∀ m, All ok (resume m)) →
      All ok (.yield value memo resume)

namespace All

theorem pure {value : α} {memo : μ} (h : ok value) : All ok (Search.pure value memo) :=
  .yield h fun _ => .done

theorem append {next : μ → Search μ α} (h : All ok s) (hn : ∀ m, All ok (next m)) :
    All ok (s.append next) := by
  induction h with
  | done => exact hn _
  | yield hv _ ih => exact .yield hv ih

theorem map {good : β → Prop} {f : α → β} (h : All ok s) (hf : ∀ a, ok a → good (f a)) :
    All good (s.map f) := by
  induction h with
  | done => exact .done
  | yield hv _ ih => exact .yield (hf _ hv) ih

theorem bind {good : β → Prop} {f : α → μ → Search μ β} (h : All ok s)
    (hf : ∀ a, ok a → ∀ m, All good (f a m)) : All good (s.bind f) := by
  induction h with
  | done => exact .done
  | yield hv _ ih => exact (hf _ hv _).append ih

/-- Only what follows the answers of a search matters. -/
theorem bind_congr {f g : α → μ → Search μ β} (h : All ok s) (hfg : ∀ a, ok a → f a = g a) :
    s.bind f = s.bind g := by
  induction h with
  | done => rfl
  | yield hv _ ih => rw [Search.bind, Search.bind, hfg _ hv, funext ih]

end All

end Search

namespace Matching

open Search (All)

section Shrinking

variable {μ κ : Type} [BEq κ] [Hashable κ] {tokens : List Token} {ok : Outcome → Prop}

theorem all_distinct {key : κ × List Nat} {s : Search (Failures κ) Outcome} (h : All ok s)
    (seen : Std.HashSet (List Nat)) : All ok (distinct key seen s) := by
  induction h generalizing seen with
  | done => exact .done
  | @yield o memo resume ho _ ih =>
    rw [distinct]
    by_cases hc : seen.contains o.left = true
    · rw [if_pos hc]
      exact ih memo seen
    · rw [if_neg hc]
      exact .yield ho fun m => ih m _

theorem all_remember {key : κ × List Nat} {memo : Failures κ}
    {search : Failures κ → Search (Failures κ) Outcome} (h : ∀ m, All ok (search m)) :
    All ok (remember key memo search) := by
  rw [remember]
  by_cases hc : memo.contains key = true
  · rw [if_pos hc]
    exact .done
  · rw [if_neg hc]
    exact all_distinct (h memo) ∅

/-- The answers of a search leave nothing that was not left before. -/
def Shrinks (search : List Nat → μ → Search μ Outcome) : Prop :=
  ∀ left memo, All (·.left.Sublist left) (search left memo)

theorem shrinks_repeated {once : List Nat → μ → Search μ Outcome} (h : Shrinks once)
    (rounds : Nat) : Shrinks (repeated once rounds) := by
  induction rounds with
  | zero => exact h
  | succ n ih =>
    intro left memo
    rw [repeated]
    refine (h left memo).bind fun o ho m => ?_
    by_cases hsame : o.left = left
    · rw [if_pos hsame]
      exact .pure ho
    · rw [if_neg hsame]
      exact ((ih o.left m).map fun more hmore => hmore.trans ho).append fun _ => .pure ho

mutual

theorem shrinks_outcomes : ∀ n : Node κ, Shrinks (n.outcomes tokens)
  | .leaf _ l, left, memo => by
    rw [Node.outcomes]
    refine all_remember fun m => ?_
    cases hl : leafOutcome? tokens l left with
    | none => exact .done
    | some o =>
      obtain ⟨i, v, -, rfl⟩ := leafOutcome?_eq_some.mp hl
      exact .pure List.filter_sublist
  | .required _ ns, left, memo => by
    rw [Node.outcomes]
    exact all_remember (shrinks_sequence false ns left)
  | .optional _ ns, left, memo => by
    rw [Node.outcomes]
    exact all_remember (shrinks_sequence true ns left)
  | .shortcut _ ns, left, memo => by
    rw [Node.outcomes]
    exact all_remember (shrinks_sequence true ns left)
  | .either _ ns, left, memo => by
    rw [Node.outcomes]
    exact all_remember (shrinks_alternatives ns left)
  | .oneOrMore _ n, left, memo => by
    rw [Node.outcomes]
    exact all_remember (shrinks_repeated (shrinks_outcomes n) left.length left)

theorem shrinks_sequence (skipping : Bool) : ∀ ns : List (Node κ),
    Shrinks (Node.sequence tokens skipping ns)
  | [], left, memo => by
    rw [Node.sequence]
    exact .pure (List.Sublist.refl left)
  | n :: ns, left, memo => by
    have hns := shrinks_sequence skipping ns
    rw [Node.sequence]
    refine ((shrinks_outcomes n left memo).bind fun o ho m => ?_).append fun m => ?_
    · exact (hns o.left m).map fun more hmore => hmore.trans ho
    · cases skipping with
      | true => exact hns left m
      | false => exact .done

theorem shrinks_alternatives : ∀ ns : List (Node κ), Shrinks (Node.alternatives tokens ns)
  | [], left, memo => by
    rw [Node.alternatives]
    exact .done
  | n :: ns, left, memo => by
    rw [Node.alternatives]
    exact (shrinks_outcomes n left memo).append fun m => shrinks_alternatives ns left m

end

/-- The closest attempt is one of the attempts, or what it is taken to be at first. -/
theorem closest_of_all {left closest : List Nat} {s : Search μ Outcome}
    (h : All (·.left.Sublist left) s) (hc : closest.Sublist left) :
    (settle closest s).closest.Sublist left := by
  induction h generalizing closest with
  | done => exact hc
  | @yield o memo resume ho _ ih =>
    rw [settle]
    by_cases hdone : o.left.isEmpty = true
    · rw [if_pos hdone]
      exact hc
    · rw [if_neg hdone]
      refine ih memo ?_
      by_cases hless : o.left.length < closest.length
      · rwa [if_pos hless]
      · rwa [if_neg hless]

/-- **The tokens that the best attempt leaves are tokens of the command line.** -/
theorem closest_sublist (tokens : List Token) (p : Pattern) :
    (run tokens p).closest.Sublist (everything tokens) :=
  closest_of_all (shrinks_outcomes (.ofPattern p) (everything tokens) ∅) (List.Sublist.refl _)

end Shrinking

section Agreement

variable {μ κ : Type} [BEq κ] [Hashable κ] {tokens tokens' : List Token}

/-- The tokens left say the same on both sides. -/
def AgreeOn (tokens tokens' : List Token) (left : List Nat) : Prop :=
  ∀ i ∈ left, (tokens.map Token.meaning)[i]? = (tokens'.map Token.meaning)[i]?

theorem AgreeOn.sublist {left rest : List Nat} (h : AgreeOn tokens tokens' left)
    (hr : rest.Sublist left) : AgreeOn tokens tokens' rest :=
  fun i hi => h i (hr.subset hi)

theorem findSome?_congr {α : Type} {l : List Nat} {f g : Nat → Option α}
    (h : ∀ i ∈ l, f i = g i) : l.findSome? f = l.findSome? g := by
  induction l with
  | nil => rfl
  | cons i l ih =>
    obtain ⟨hi, hl⟩ := List.forall_mem_cons.mp h
    rw [List.findSome?_cons, List.findSome?_cons, hi, ih hl]

theorem leafOutcome?_congr {left : List Nat} (h : AgreeOn tokens tokens' left) (l : Leaf) :
    leafOutcome? tokens l left = leafOutcome? tokens' l left := by
  have hpositional : firstPositional? (tokens.map Token.meaning) left =
      firstPositional? (tokens'.map Token.meaning) left :=
    findSome?_congr fun i hi => by rw [h i hi]
  have hoption (name : String) : firstOption? (tokens.map Token.meaning) name left =
      firstOption? (tokens'.map Token.meaning) name left :=
    findSome?_congr fun i hi => by rw [h i hi]
  rw [← leafOutcome?_meaning tokens, ← leafOutcome?_meaning tokens']
  cases l with
  | command name => simp only [leafOutcome?, hpositional]
  | argument name => simp only [leafOutcome?, hpositional]
  | option o => simp only [leafOutcome?, hoption]

theorem repeated_congr {once once' : List Nat → μ → Search μ Outcome} (hs : Shrinks once)
    (h : ∀ left, AgreeOn tokens tokens' left → once left = once' left) (rounds : Nat)
    {left : List Nat} (hl : AgreeOn tokens tokens' left) :
    repeated once rounds left = repeated once' rounds left := by
  induction rounds generalizing left with
  | zero => exact h left hl
  | succ n ih =>
    funext memo
    rw [repeated, repeated, ← h left hl]
    refine (hs left memo).bind_congr fun o ho => ?_
    rw [ih (hl.sublist ho)]

mutual

/-- **A search depends on what the tokens left say and on nothing else.** -/
theorem outcomes_congr : ∀ (n : Node κ) (left : List Nat), AgreeOn tokens tokens' left →
    n.outcomes tokens left = n.outcomes tokens' left
  | .leaf _ l, left, h => by
    funext memo
    rw [Node.outcomes, Node.outcomes, leafOutcome?_congr h]
  | .required _ ns, left, h => by
    funext memo
    rw [Node.outcomes, Node.outcomes, sequence_congr false ns left h]
  | .optional _ ns, left, h => by
    funext memo
    rw [Node.outcomes, Node.outcomes, sequence_congr true ns left h]
  | .shortcut _ ns, left, h => by
    funext memo
    rw [Node.outcomes, Node.outcomes, sequence_congr true ns left h]
  | .either _ ns, left, h => by
    funext memo
    rw [Node.outcomes, Node.outcomes, alternatives_congr ns left h]
  | .oneOrMore _ n, left, h => by
    funext memo
    rw [Node.outcomes, Node.outcomes]
    exact congrArg _ (repeated_congr (shrinks_outcomes n) (outcomes_congr n) left.length h)

theorem sequence_congr (skipping : Bool) : ∀ (ns : List (Node κ)) (left : List Nat),
    AgreeOn tokens tokens' left →
      Node.sequence tokens skipping ns left = Node.sequence tokens' skipping ns left
  | [], left, _ => by
    funext memo
    rw [Node.sequence, Node.sequence]
  | n :: ns, left, h => by
    have hns := sequence_congr skipping ns
    funext memo
    rw [Node.sequence, Node.sequence, hns left h, ← outcomes_congr n left h]
    refine congrArg (Search.append · _) ((shrinks_outcomes n left memo).bind_congr fun o ho => ?_)
    rw [hns o.left (h.sublist ho)]

theorem alternatives_congr : ∀ (ns : List (Node κ)) (left : List Nat),
    AgreeOn tokens tokens' left →
      Node.alternatives tokens ns left = Node.alternatives tokens' ns left
  | [], left, _ => by
    funext memo
    rw [Node.alternatives, Node.alternatives]
  | n :: ns, left, h => by
    funext memo
    rw [Node.alternatives, Node.alternatives, outcomes_congr n left h,
      alternatives_congr ns left h]

end

/-- **Tokens that say the same are matched alike.** -/
theorem run_congr (h : tokens.map Token.meaning = tokens'.map Token.meaning) (p : Pattern) :
    run tokens p = run tokens' p := by
  have hlength := congrArg List.length h
  rw [List.length_map, List.length_map] at hlength
  have heverything : everything tokens = everything tokens' := by
    rw [everything, everything, hlength]
  have hagree : AgreeOn tokens tokens' (everything tokens') := fun i _ => by rw [h]
  rw [run, run, search, search, outcomes, outcomes, heverything, outcomes_congr _ _ hagree]

end Agreement

end Matching

end Synopsis
