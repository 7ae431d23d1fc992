import Synopsis.Proofs.Backtracking

/-!
# The outcome that is preferred

The first outcome of a pattern is found without turning back as long as each part has one: every
option that is there is taken, and a repetition goes on for as long as it can. If it leaves nothing,
it is the match.
-/

namespace Synopsis.Matching

variable {tokens : List Token} {left : List Nat}

namespace Enumeration

variable {e f : Enumeration} {o o' : Outcome}

/-- **The outcome is the first one.** -/
def Prefers (e : Enumeration) (left : List Nat) (o : Outcome) : Prop :=
  (e.list left).head? = some o

theorem prefers_finish (left : List Nat) : finish.Prefers left ⟨left, []⟩ := rfl

theorem prefers_ofLeaf {l : Leaf} {i : Nat} {v : Value} (h : Consumes tokens l left i v) :
    (ofLeaf tokens l).Prefers left (consume l left i v) := by
  show (leafOutcome? tokens l left).toList.head? = _
  rw [h.leafOutcome?]
  rfl

namespace Prefers

theorem followedBy (h : e.Prefers left o) (k : f.Prefers o.left o') :
    (e.followedBy f).Prefers left (o'.after o.matched) := by
  obtain ⟨more, hmore⟩ := List.head?_eq_some_iff.mp h
  obtain ⟨more', hmore'⟩ := List.head?_eq_some_iff.mp k
  show ((e.list left).flatMap fun o => (f.list o.left).map (Outcome.after o.matched)).head? = _
  rw [hmore, List.flatMap_cons, hmore']
  rfl

theorem orElse (h : e.Prefers left o) : (e.orElse f).Prefers left o := by
  obtain ⟨more, hmore⟩ := List.head?_eq_some_iff.mp h
  show (e.list left ++ f.list left).head? = _
  rw [hmore]
  rfl

theorem orElse_of_nil (h : e.list left = []) (k : f.Prefers left o) :
    (e.orElse f).Prefers left o := by
  show (e.list left ++ f.list left).head? = _
  rw [h]
  exact k

/-- A repetition goes on after a round that changes what is left. -/
theorem oneOrMore (h : e.Prefers left o) (hne : o.left ≠ left)
    (k : e.oneOrMore.Prefers o.left o') : e.oneOrMore.Prefers left (o'.after o.matched) := by
  obtain ⟨more, hmore⟩ := List.head?_eq_some_iff.mp h
  obtain ⟨more', hmore'⟩ := List.head?_eq_some_iff.mp k
  have hrounds : e.rounds o.left = o' :: more' := hmore'
  show (e.rounds left).head? = _
  rw [rounds_eq, hmore, List.flatMap_cons, if_neg hne, hrounds]
  rfl

/-- A repetition ends where there is no further round. -/
theorem oneOrMore_last (h : e.Prefers left o) (hne : o.left ≠ left)
    (k : e.oneOrMore.list o.left = []) : e.oneOrMore.Prefers left o := by
  obtain ⟨more, hmore⟩ := List.head?_eq_some_iff.mp h
  have hrounds : e.rounds o.left = [] := k
  show (e.rounds left).head? = _
  rw [rounds_eq, hmore, List.flatMap_cons, if_neg hne, hrounds]
  rfl

end Prefers

end Enumeration

open Enumeration (Prefers)

variable {p : Pattern} {ps : List Pattern} {o o' : Outcome} {skipping : Bool}

theorem prefers_cons (h : (enumerate tokens p).Prefers left o)
    (k : (enumerateAll tokens skipping ps).Prefers o.left o') :
    (enumerateAll tokens skipping (p :: ps)).Prefers left (o'.after o.matched) := by
  rw [enumerateAll]
  exact (h.followedBy k).orElse

/-- What has no outcome is left out where it may be. -/
theorem prefers_skip (h : (enumerate tokens p).list left = [])
    (k : (enumerateAll tokens true ps).Prefers left o) :
    (enumerateAll tokens true (p :: ps)).Prefers left o := by
  rw [enumerateAll]
  refine Prefers.orElse_of_nil ?_ k
  show ((enumerate tokens p).list left).flatMap _ = []
  rw [h]
  rfl

theorem prefers_nil (left : List Nat) :
    (enumerateAll tokens skipping []).Prefers left ⟨left, []⟩ := by
  rw [enumerateAll]
  exact Enumeration.prefers_finish left

theorem after_finish (o : Outcome) : Outcome.after o.matched ⟨o.left, []⟩ = o := by
  rw [Outcome.after, List.append_nil]

theorem prefers_singleton (h : (enumerate tokens p).Prefers left o) :
    (enumerateAll tokens skipping [p]).Prefers left o := by
  have hcons : (enumerateAll tokens skipping [p]).Prefers left
      (Outcome.after o.matched ⟨o.left, []⟩) := prefers_cons h (prefers_nil o.left)
  rwa [after_finish] at hcons

theorem prefers_optional (h : (enumerate tokens p).Prefers left o) :
    (enumerate tokens (.optional [p])).Prefers left o := by
  rw [enumerate]
  exact prefers_singleton h

theorem prefers_optional_none (h : (enumerate tokens p).list left = []) :
    (enumerate tokens (.optional [p])).Prefers left ⟨left, []⟩ := by
  rw [enumerate]
  exact prefers_skip h (prefers_nil left)

theorem prefers_either (h : (enumerate tokens p).Prefers left o) :
    (enumerate tokens (.either (p :: ps))).Prefers left o := by
  rw [enumerate, enumerateAny]
  exact h.orElse

/-- **The first outcome is the match** if it leaves nothing. -/
theorem run_of_prefers {ms : List LeafMatch}
    (h : (enumerate tokens p).Prefers (everything tokens) ⟨[], ms⟩) :
    (run tokens p).matched = some ms := by
  obtain ⟨more, hmore⟩ := List.head?_eq_some_iff.mp h
  rw [run_matched, hmore]
  rfl

section Options

/-- The token at a place is the option with the given name. -/
def isOptionAt (tokens : List Token) (name : String) (i : Nat) : Bool :=
  tokens[i]?.any (Token.isOptionOf name)

/-- The match of an option with the first token of it that is left. -/
def optionMatch? (tokens : List Token) (left : List Nat) (o : OptionDef) : Option LeafMatch :=
  (firstOption? tokens o.name left).map fun (i, t) => ⟨.option o, i, t.value⟩

theorem isOptionAt_iff {name : String} {i : Nat} :
    isOptionAt tokens name i = true ↔
      ∃ t o, tokens[i]? = some t ∧ t.option? = some o ∧ o.name = name := by
  rw [isOptionAt, Option.any_eq_true]
  refine exists_congr fun t => ?_
  rw [Token.isOptionOf, Option.any_eq_true]
  constructor
  · rintro ⟨ht, o, ho, hn⟩
    exact ⟨o, ht, ho, beq_iff_eq.mp hn⟩
  · rintro ⟨o, ht, ho, hn⟩
    exact ⟨ht, o, ho, beq_iff_eq.mpr hn⟩

/-- A token has one name. -/
theorem isOptionAt_unique {name other : String} {i : Nat} (h : isOptionAt tokens name i = true)
    (h' : isOptionAt tokens other i = true) : name = other := by
  obtain ⟨t, o, ht, ho, rfl⟩ := isOptionAt_iff.mp h
  obtain ⟨t', o', ht', ho', rfl⟩ := isOptionAt_iff.mp h'
  obtain rfl := Option.some.inj (ht.symm.trans ht')
  rw [Option.some.inj (ho.symm.trans ho')]

theorem firstOption?_eq_none {name : String} :
    firstOption? tokens name left = none ↔ ∀ i ∈ left, isOptionAt tokens name i = false := by
  rw [firstOption?, List.findSome?_eq_none_iff]
  refine forall₂_congr fun i _ => ?_
  rw [isOptionAt]
  cases tokens[i]? with
  | none => simp
  | some t =>
    show (if t.isOptionOf name = true then some (i, t) else none) = none ↔ t.isOptionOf name = false
    simp

/-- Other tokens do not matter for an option. -/
theorem firstOption?_filter {name : String} {keep : Nat → Bool}
    (h : ∀ i ∈ left, isOptionAt tokens name i = true → keep i = true) :
    firstOption? tokens name (left.filter keep) = firstOption? tokens name left := by
  induction left with
  | nil => rfl
  | cons i left ih =>
    have hrest := ih fun j hj => h j (List.mem_cons_of_mem i hj)
    cases hi : keep i with
    | true =>
      rw [List.filter_cons_of_pos hi]
      unfold firstOption? at hrest ⊢
      rw [List.findSome?_cons, List.findSome?_cons, hrest]
    | false =>
      have hother : isOptionAt tokens name i = false := by
        refine Bool.eq_false_iff.mpr fun hopt => ?_
        rw [h i List.mem_cons_self hopt] at hi
        exact nomatch hi
      have hnone : firstOption? tokens name [i] = none := by
        refine firstOption?_eq_none.mpr fun j hj => ?_
        rwa [List.mem_singleton.mp hj]
      rw [List.filter_cons_of_neg (by simp [hi]), hrest]
      unfold firstOption? at hnone ⊢
      rw [← List.singleton_append, List.findSome?_append, hnone, Option.none_or]

/-- Among places of which at most one has an option, the first one is left by all others. -/
theorem filter_consumed {name : String} {i : Nat}
    (hone : ∀ j ∈ left, isOptionAt tokens name j = true → j = i)
    (hi : isOptionAt tokens name i = true) :
    left.filter (· != i) = left.filter fun j => !isOptionAt tokens name j := by
  refine List.filter_congr fun j hj => ?_
  by_cases hji : j = i
  · subst hji
    simp [hi]
  · have hother : isOptionAt tokens name j = false := by
      refine Bool.eq_false_iff.mpr fun hopt => hji (hone j hj hopt)
    simp [hji, hother]

/-- One option that may be left out is taken if it is there, and what follows does without the
tokens that have it. -/
theorem prefers_option {o : OptionDef} {ps : List Pattern} {more : List Nat} {ms : List LeafMatch}
    (hone : ∀ i ∈ left, ∀ j ∈ left, isOptionAt tokens o.name i = true →
      isOptionAt tokens o.name j = true → i = j)
    (hrest : (enumerateAll tokens true ps).Prefers
      (left.filter fun i => !isOptionAt tokens o.name i) ⟨more, ms⟩) :
    (enumerateAll tokens true (.ofOption o :: ps)).Prefers left
      ⟨more, (optionMatch? tokens left o).toList ++ ms⟩ := by
  rw [optionMatch?]
  cases hf : firstOption? tokens o.name left with
  | none =>
    have hall : (left.filter fun i => !isOptionAt tokens o.name i) = left := by
      refine List.filter_eq_self.mpr fun i hi => ?_
      rw [firstOption?_eq_none.mp hf i hi]
      rfl
    have hnone : (enumerate tokens (.ofOption o)).list left = [] := by
      show (leafOutcome? tokens (.option o) left).toList = []
      rw [leafOutcome?, hf]
      rfl
    rw [hall] at hrest
    exact prefers_skip hnone hrest
  | some found =>
    obtain ⟨i, t⟩ := found
    have hfirst := firstOption?_eq_some.mp hf
    have hi : isOptionAt tokens o.name i = true := by
      obtain ⟨-, -, -, ht, hk, -⟩ := hfirst
      rw [isOptionAt, ht]
      exact hk
    have hconsumed := filter_consumed (fun j hj hopt => hone j hj i hfirst.mem hopt hi) hi
    have hleaf : (enumerate tokens (.ofOption o)).Prefers left
        ⟨left.filter fun i => !isOptionAt tokens o.name i, [⟨.option o, i, t.value⟩]⟩ := by
      have hprefers := Enumeration.prefers_ofLeaf (.option hfirst)
      rw [consume, hconsumed] at hprefers
      rwa [Pattern.ofOption, enumerate]
    exact prefers_cons hleaf hrest

/-- **Options that may be left out are all taken**, each if it is there, as long as none is there
twice. -/
theorem prefers_options {os : List OptionDef} (hos : (os.map OptionDef.name).Nodup)
    (hone : ∀ o ∈ os, ∀ i ∈ left, ∀ j ∈ left, isOptionAt tokens o.name i = true →
      isOptionAt tokens o.name j = true → i = j) :
    (enumerateAll tokens true (os.map .ofOption)).Prefers left
      ⟨left.filter fun i => os.all fun o => !isOptionAt tokens o.name i,
        os.filterMap (optionMatch? tokens left)⟩ := by
  induction os generalizing left with
  | nil =>
    have hall : (left.filter fun i => [].all fun o : OptionDef => !isOptionAt tokens o.name i) =
        left :=
      List.filter_eq_self.mpr fun _ _ => rfl
    rw [hall]
    exact prefers_nil left
  | cons o os ih =>
    rw [List.map_cons, List.nodup_cons] at hos
    -- the tokens of the first option are none of the others'
    have hother : ∀ o' ∈ os, ∀ i ∈ left, isOptionAt tokens o'.name i = true →
        (!isOptionAt tokens o.name i) = true := by
      intro o' ho' i _ hi
      rw [Bool.not_eq_true', Bool.eq_false_iff]
      intro hopt
      exact hos.1 (isOptionAt_unique hopt hi ▸ List.mem_map_of_mem ho')
    let rest := left.filter fun i => !isOptionAt tokens o.name i
    have hrest := @ih rest hos.2 fun o' ho' i hi j hj =>
      hone o' (List.mem_cons_of_mem o ho') i (List.mem_filter.mp hi).1 j (List.mem_filter.mp hj).1
    have hmatches : os.filterMap (optionMatch? tokens rest) =
        os.filterMap (optionMatch? tokens left) := by
      refine List.filterMap_congr fun o' ho' => ?_
      rw [optionMatch?, optionMatch?, firstOption?_filter (hother o' ho')]
    have hleft : (rest.filter fun i => os.all fun o => !isOptionAt tokens o.name i) =
        left.filter fun i => (o :: os).all fun o => !isOptionAt tokens o.name i := by
      rw [List.filter_filter]
      simp only [List.all_cons, Bool.and_comm]
    have htaken : (o :: os).filterMap (optionMatch? tokens left) =
        (optionMatch? tokens left o).toList ++ os.filterMap (optionMatch? tokens left) := by
      rw [List.filterMap_cons]
      cases optionMatch? tokens left o <;> rfl
    rw [hmatches, hleft] at hrest
    rw [List.map_cons, htaken]
    exact prefers_option (hone o List.mem_cons_self) hrest

end Options

section Words

/-- The matches of an argument with the words from a place on. -/
def wordMatches (name : String) : Nat → List String → List LeafMatch
  | _, [] => []
  | k, w :: ws => ⟨.argument name, k, .text w⟩ :: wordMatches name (k + 1) ws

variable {k : Nat} {w : String} {ws : List String} {name : String}

theorem getElem?_of_words (h : tokens.drop k = (w :: ws).map .plain) :
    tokens[k]? = some (.plain w) := by
  rw [← List.head?_drop, h]
  rfl

theorem drop_succ_of_words (h : tokens.drop k = (w :: ws).map .plain) :
    tokens.drop (k + 1) = ws.map .plain := by
  rw [← List.tail_drop, h]
  rfl

theorem firstLeft_word (h : tokens.drop k = (w :: ws).map .plain) :
    FirstLeft tokens Token.isPositional (List.range' k (ws.length + 1)) k (.plain w) :=
  ⟨[], List.range' (k + 1) ws.length, List.range'_succ, getElem?_of_words h, rfl, nofun⟩

theorem consume_word (l : Leaf) (v : Value) :
    consume l (List.range' k (ws.length + 1)) k v =
      ⟨List.range' (k + 1) ws.length, [⟨l, k, v⟩]⟩ := by
  rw [consume, List.range'_succ, List.filter_cons_of_neg (by simp), List.filter_eq_self.mpr]
  intro i hi
  have hlt := (List.mem_range'_1.mp hi).1
  simp
  omega

theorem prefers_argument (h : tokens.drop k = (w :: ws).map .plain) (name : String) :
    (enumerate tokens (.leaf (.argument name))).Prefers (List.range' k (ws.length + 1))
      ⟨List.range' (k + 1) ws.length, [⟨.argument name, k, .text w⟩]⟩ := by
  have hconsumes : Consumes tokens (.argument name) (List.range' k (ws.length + 1)) k (.text w) :=
    .argument (firstLeft_word h)
  have hprefers := Enumeration.prefers_ofLeaf hconsumes
  rw [consume_word] at hprefers
  rwa [enumerate]

theorem prefers_command (h : tokens.drop k = (w :: ws).map .plain) :
    (enumerate tokens (.leaf (.command w))).Prefers (List.range' k (ws.length + 1))
      ⟨List.range' (k + 1) ws.length, [⟨.command w, k, .flag true⟩]⟩ := by
  have hconsumes : Consumes tokens (.command w) (List.range' k (ws.length + 1)) k (.flag true) :=
    .command (firstLeft_word h) rfl (.inl rfl)
  have hprefers := Enumeration.prefers_ofLeaf hconsumes
  rw [consume_word] at hprefers
  rwa [enumerate]

/-- A command is not there if another word or no word comes next. -/
theorem list_command_eq_nil (h : tokens.drop k = ws.map .plain) (hne : ws.head? ≠ some name) :
    (enumerate tokens (.leaf (.command name))).list (List.range' k ws.length) = [] := by
  rw [enumerate]
  show (leafOutcome? tokens (.command name) (List.range' k ws.length)).toList = []
  cases ws with
  | nil => rfl
  | cons w ws =>
    have hw : w ≠ name := fun heq => hne (congrArg some heq)
    rw [leafOutcome?, List.length_cons, firstPositional?_eq_some.mpr (firstLeft_word h)]
    show (if w = name then _ else none : Option Outcome).toList = []
    rw [if_neg hw]
    rfl

theorem list_arguments_eq_nil (tokens : List Token) (name : String) :
    (enumerate tokens (.oneOrMore (.leaf (.argument name)))).list [] = [] := by
  rw [enumerate]
  show Enumeration.rounds _ [] = []
  rw [Enumeration.rounds_eq, enumerate]
  rfl

theorem range'_succ_ne (k n : Nat) : List.range' (k + 1) n ≠ List.range' k (n + 1) := by
  intro heq
  have hlength := congrArg List.length heq
  rw [List.length_range', List.length_range'] at hlength
  omega

/-- **A repeated argument takes all words**, if there are any. -/
theorem prefers_arguments (h : tokens.drop k = (w :: ws).map .plain) (name : String) :
    (enumerate tokens (.oneOrMore (.leaf (.argument name)))).Prefers (List.range' k (ws.length + 1))
      ⟨[], wordMatches name k (w :: ws)⟩ := by
  have hnone := list_arguments_eq_nil tokens name
  rw [enumerate] at hnone ⊢
  induction ws generalizing k w with
  | nil => exact (prefers_argument h name).oneOrMore_last (range'_succ_ne k 0) hnone
  | cons v ws ih =>
    have hlater := ih (drop_succ_of_words h)
    exact (prefers_argument h name).oneOrMore (range'_succ_ne k _) hlater

end Words

end Synopsis.Matching
