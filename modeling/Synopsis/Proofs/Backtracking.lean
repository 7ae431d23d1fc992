import Synopsis.Proofs.Answers
import Synopsis.Proofs.Enumeration
import Synopsis.Proofs.NodeIdentity

/-!
# The memo changes nothing

A memo is sound for nodes that exist together if each of its entries is that of one of them, which
has no outcome from the tokens left that stand beside it. Every part of a search keeps a sound memo
sound and, with any sound memo, gives answers that agree with plain backtracking. Hence the outcomes
of a pattern are the first ones of plain backtracking, and a match is the first of these that leaves
nothing.
-/

namespace Synopsis.Matching

open Search (Gives)
open Node (Apart Together IsPlain together_isPlain)

variable {κ : Type} [DecidableEq κ] [Hashable κ] (tokens : List Token) (known : Node κ → Prop)

/-- The entries of the memo are those of nodes that have no outcome. -/
def Sound (memo : Failures κ) : Prop :=
  ∀ i left, memo.contains (i, left) = true →
    ∃ n, known n ∧ n.identity = i ∧ (enumerate tokens n.pattern).list left = []

/-- With sound memos the search gives answers of its own that agree with the enumeration. -/
def Follows (search : List Nat → Failures κ → Search (Failures κ) Outcome) (e : Enumeration) :
    Prop :=
  ∃ own : Enumeration, own.Agree e ∧
    ∀ left memo, Sound tokens known memo →
      Gives (Sound tokens known) (search left memo) (own.list left)

variable {tokens known}

theorem sound_empty : Sound tokens known ∅ := by
  intro i left h
  simp at h

theorem Sound.insert {memo : Failures κ} {n : Node κ} {left : List Nat}
    (h : Sound tokens known memo) (hn : known n)
    (hnone : (enumerate tokens n.pattern).list left = []) :
    Sound tokens known (memo.insert (n.identity, left)) := by
  intro i l hi
  rw [Std.HashSet.contains_insert, Bool.or_eq_true, beq_iff_eq, Prod.mk.injEq] at hi
  rcases hi with ⟨rfl, rfl⟩ | hi
  · exact ⟨n, hn, rfl, hnone⟩
  · exact h i l hi

/-- An entry with the identity of a node is right of the node. -/
theorem Sound.none {memo : Failures κ} {n : Node κ} {left : List Nat} (h : Sound tokens known memo)
    (hapart : Apart known) (hn : known n)
    (hc : memo.contains (n.identity, left) = true) :
    (enumerate tokens n.pattern).list left = [] := by
  obtain ⟨m, hm, hsame, hnone⟩ := h _ left hc
  rwa [hapart m n hm hn hsame] at hnone

/-- What leaves something seen is dropped in any case. -/
theorem filter_unseen_ne {seen : Std.HashSet (List Nat)} {x : List Nat}
    (hx : seen.contains x = true) (l : List Outcome) :
    (l.filter (·.left ≠ x)).filter (!seen.contains ·.left) = l.filter (!seen.contains ·.left) := by
  rw [List.filter_filter]
  refine List.filter_congr fun o _ => ?_
  by_cases ho : o.left = x
  · simp [ho, hx]
  · simp [ho]

theorem filter_unseen_insert (seen : Std.HashSet (List Nat)) (x : List Nat) (l : List Outcome) :
    (l.filter (·.left ≠ x)).filter (!seen.contains ·.left) =
      l.filter (!(seen.insert x).contains ·.left) := by
  rw [List.filter_filter]
  refine List.filter_congr fun o _ => ?_
  rw [Std.HashSet.contains_insert, Bool.not_or, Bool.and_comm]
  by_cases ho : x = o.left
  · simp [ho]
  · have ho' : ¬ o.left = x := fun h => ho h.symm
    simp [ho, ho']

/-- Dropping repeated answers gives the first ones that were not seen before. The memo may take the
key down, since it does so only if there was no answer at all. -/
theorem gives_distinct {n : Node κ} {left : List Nat} {s : Search (Failures κ) Outcome}
    {l : List Outcome} (h : Gives (Sound tokens known) s l) (hn : known n)
    (seen : Std.HashSet (List Nat))
    (hkey : seen.isEmpty = true → l = [] → (enumerate tokens n.pattern).list left = []) :
    Gives (Sound tokens known) (distinct (n.identity, left) seen s)
      ((firsts l).filter (!seen.contains ·.left)) := by
  induction h generalizing seen with
  | @done memo hm =>
    rw [distinct]
    refine .done ?_
    by_cases hs : seen.isEmpty = true
    · rw [if_pos hs]
      exact hm.insert hn (hkey hs rfl)
    · rwa [if_neg hs]
  | @yield o memo resume rest hm _ ih =>
    rw [distinct, firsts, List.filter_cons]
    by_cases hc : seen.contains o.left = true
    · have hne : ¬ seen.isEmpty = true := fun he => by
        rw [Std.HashSet.contains_of_isEmpty he] at hc
        exact Bool.false_ne_true hc
      rw [if_pos hc, hc, Bool.not_true, if_neg Bool.false_ne_true, filter_unseen_ne hc]
      exact ih memo hm seen fun he => absurd he hne
    · have hins : ¬ (seen.insert o.left).isEmpty = true := by simp
      rw [if_neg hc, Bool.eq_false_iff.mpr hc, Bool.not_false, if_pos rfl, filter_unseen_insert]
      exact .yield hm fun m hm' => ih m hm' (seen.insert o.left) fun he => absurd he hins

namespace Follows

variable {search search' : List Nat → Failures κ → Search (Failures κ) Outcome}
  {e f : Enumeration}

theorem congr (h : Follows tokens known search e)
    (heq : ∀ left memo, search' left memo = search left memo) : Follows tokens known search' e := by
  have hsearch : search' = search := by
    funext left memo
    exact heq left memo
  rwa [hsearch]

theorem finish : Follows tokens known (fun left memo => .pure ⟨left, []⟩ memo) .finish :=
  ⟨.finish, .refl _, fun _ _ hm => .pure hm⟩

theorem nothing : Follows tokens known (fun _ memo => .done memo) .nothing :=
  ⟨.nothing, .refl _, fun _ _ hm => .done hm⟩

theorem ofLeaf (l : Leaf) :
    Follows tokens known (fun left => ofOption (leafOutcome? tokens l left))
      (.ofLeaf tokens l) := by
  refine ⟨.ofLeaf tokens l, .refl _, fun left memo hm => ?_⟩
  show Gives _ (ofOption (leafOutcome? tokens l left) memo) (leafOutcome? tokens l left).toList
  cases leafOutcome? tokens l left with
  | none => exact .done hm
  | some o => exact .pure hm

theorem orElse (h : Follows tokens known search e) (k : Follows tokens known search' f) :
    Follows tokens known
      (fun left memo => (search left memo).append fun memo => search' left memo)
      (e.orElse f) := by
  obtain ⟨own, ho, hown⟩ := h
  obtain ⟨own', ho', hown'⟩ := k
  exact ⟨own.orElse own', ho.orElse ho', fun left memo hm =>
    (hown left memo hm).append fun m hm' => hown' left m hm'⟩

theorem followedBy (h : Follows tokens known search e) (k : Follows tokens known search' f) :
    Follows tokens known
      (fun left memo => (search left memo).bind fun o memo =>
        (search' o.left memo).map (Outcome.after o.matched)) (e.followedBy f) := by
  obtain ⟨own, ho, hown⟩ := h
  obtain ⟨own', ho', hown'⟩ := k
  exact ⟨own.followedBy own', ho.followedBy ho', fun left memo hm =>
    (hown left memo hm).bind fun o _ m hm' => (hown' o.left m hm').map _⟩

/-- As many rounds as there are tokens left are enough, for every round but the last one consumes
some token. -/
theorem repeated_gives {own : Enumeration}
    (h : ∀ left memo, Sound tokens known memo →
      Gives (Sound tokens known) (search left memo) (own.list left))
    (rounds : Nat) (left : List Nat) (hl : left.length ≤ rounds) (memo : Failures κ)
    (hm : Sound tokens known memo) :
    Gives (Sound tokens known) (repeated search rounds left memo) (own.rounds left) := by
  induction rounds generalizing left memo with
  | zero =>
    have hlist : own.rounds left = own.list left := by
      rw [own.rounds_eq]
      have hsame : ∀ o ∈ own.list left, o.left = left := by
        intro o ho
        by_contra hne
        have := own.shorter ho hne
        omega
      rw [List.flatMap_congr fun o ho => if_pos (hsame o ho), List.flatMap_singleton']
    rw [repeated, hlist]
    exact h left memo hm
  | succ n ih =>
    rw [repeated, own.rounds_eq]
    refine (h left memo hm).bind fun o ho m hm' => ?_
    by_cases heq : o.left = left
    · rw [if_pos heq, if_pos heq]
      exact .pure hm'
    · rw [if_neg heq, if_neg heq]
      have hlen := own.shorter ho heq
      exact ((ih o.left (by omega) m hm').map _).append fun m' hm'' => .pure hm''

theorem oneOrMore (h : Follows tokens known search e) :
    Follows tokens known (fun left => repeated search left.length left) e.oneOrMore := by
  obtain ⟨own, ho, hown⟩ := h
  exact ⟨own.oneOrMore, ho.oneOrMore, fun left memo hm =>
    repeated_gives hown left.length left (Nat.le_refl _) memo hm⟩

/-- A search whose failures are remembered and whose answers are made distinct. -/
theorem remember {n : Node κ} (h : Follows tokens known search (enumerate tokens n.pattern))
    (hapart : Apart known) (hn : known n) (left : List Nat) (memo : Failures κ)
    (hm : Sound tokens known memo) :
    Gives (Sound tokens known) (remember (n.identity, left) memo (search left))
      (firsts ((enumerate tokens n.pattern).list left)) := by
  obtain ⟨own, ho, hown⟩ := h
  rw [Matching.remember]
  by_cases hc : memo.contains (n.identity, left) = true
  · rw [if_pos hc, hm.none hapart hn hc]
    exact .done hm
  · rw [if_neg hc, ← ho left]
    have hempty : (∅ : Std.HashSet (List Nat)).isEmpty = true → own.list left = [] →
        (enumerate tokens n.pattern).list left = [] := by
      intro _ hnil
      rw [← firsts_eq_nil, ← ho left, hnil]
      rfl
    simpa using gives_distinct (hown left memo hm) hn ∅ hempty

theorem of_gives {n : Node κ}
    (h : ∀ left memo, Sound tokens known memo →
      Gives (Sound tokens known) (n.outcomes tokens left memo)
        (firsts ((enumerate tokens n.pattern).list left))) :
    Follows tokens known (n.outcomes tokens) (enumerate tokens n.pattern) :=
  ⟨(enumerate tokens n.pattern).distinct, (Enumeration.Agree.refl _).distinct, h⟩

end Follows

mutual

/-- **A search with a sound memo gives the first outcomes of plain backtracking** and keeps the memo
sound. -/
theorem outcomes_gives (hk : Together known) : ∀ n : Node κ, known n → ∀ left memo,
    Sound tokens known memo → Gives (Sound tokens known) (n.outcomes tokens left memo)
      (firsts ((enumerate tokens n.pattern).list left))
  | .leaf i l, hn, left, memo, hm => by
    have h : Follows tokens known (fun left => ofOption (leafOutcome? tokens l left))
        (enumerate tokens (Node.leaf i l).pattern) := by
      rw [Node.pattern, enumerate]
      exact .ofLeaf l
    rw [Node.outcomes]
    exact h.remember hk.apart hn left memo hm
  | .required i ns, hn, left, memo, hm => by
    have h : Follows tokens known (Node.sequence tokens false ns)
        (enumerate tokens (Node.required i ns).pattern) := by
      rw [Node.pattern, enumerate]
      exact sequence_follows hk false ns (hk.children _ hn)
    rw [Node.outcomes]
    exact h.remember hk.apart hn left memo hm
  | .optional i ns, hn, left, memo, hm => by
    have h : Follows tokens known (Node.sequence tokens true ns)
        (enumerate tokens (Node.optional i ns).pattern) := by
      rw [Node.pattern, enumerate]
      exact sequence_follows hk true ns (hk.children _ hn)
    rw [Node.outcomes]
    exact h.remember hk.apart hn left memo hm
  | .shortcut i ns, hn, left, memo, hm => by
    have h : Follows tokens known (Node.sequence tokens true ns)
        (enumerate tokens (Node.shortcut i ns).pattern) := by
      rw [Node.pattern, enumerate]
      exact sequence_follows hk true ns (hk.children _ hn)
    rw [Node.outcomes]
    exact h.remember hk.apart hn left memo hm
  | .either i ns, hn, left, memo, hm => by
    have h : Follows tokens known (Node.alternatives tokens ns)
        (enumerate tokens (Node.either i ns).pattern) := by
      rw [Node.pattern, enumerate]
      exact alternatives_follows hk ns (hk.children _ hn)
    rw [Node.outcomes]
    exact h.remember hk.apart hn left memo hm
  | .oneOrMore i n, hn, left, memo, hm => by
    have hchild : known n := hk.children _ hn n (List.mem_singleton_self n)
    have h : Follows tokens known (fun left => repeated (n.outcomes tokens) left.length left)
        (enumerate tokens (Node.oneOrMore i n).pattern) := by
      rw [Node.pattern, enumerate]
      exact (Follows.of_gives (outcomes_gives hk n hchild)).oneOrMore
    rw [Node.outcomes]
    exact h.remember hk.apart hn left memo hm

theorem sequence_follows (hk : Together known) (skipping : Bool) : ∀ ns : List (Node κ),
    (∀ n ∈ ns, known n) → Follows tokens known (Node.sequence tokens skipping ns)
      (enumerateAll tokens skipping (Node.patterns ns))
  | [], _ => by
    rw [Node.patterns, enumerateAll]
    exact Follows.finish.congr fun left memo => by rw [Node.sequence]
  | n :: ns, hns => by
    obtain ⟨hn, hns⟩ := List.forall_mem_cons.mp hns
    have hfirst : Follows tokens known (n.outcomes tokens) (enumerate tokens n.pattern) :=
      .of_gives (outcomes_gives hk n hn)
    have hmore := sequence_follows hk skipping ns hns
    have hskip : Follows tokens known
        (fun left memo =>
          if skipping then Node.sequence tokens skipping ns left memo else .done memo)
        (if skipping then enumerateAll tokens skipping (Node.patterns ns) else .nothing) := by
      cases skipping with
      | true => exact hmore
      | false => exact .nothing
    rw [Node.patterns, enumerateAll]
    exact ((hfirst.followedBy hmore).orElse hskip).congr fun left memo => by rw [Node.sequence]

theorem alternatives_follows (hk : Together known) : ∀ ns : List (Node κ),
    (∀ n ∈ ns, known n) → Follows tokens known (Node.alternatives tokens ns)
      (enumerateAny tokens (Node.patterns ns))
  | [], _ => by
    rw [Node.patterns, enumerateAny]
    exact Follows.nothing.congr fun left memo => by rw [Node.alternatives]
  | n :: ns, hns => by
    obtain ⟨hn, hns⟩ := List.forall_mem_cons.mp hns
    have hfirst : Follows tokens known (n.outcomes tokens) (enumerate tokens n.pattern) :=
      .of_gives (outcomes_gives hk n hn)
    rw [Node.patterns, enumerateAny]
    exact (hfirst.orElse (alternatives_follows hk ns hns)).congr fun left memo => by
      rw [Node.alternatives]

end

/-- A match is the first answer that leaves nothing. -/
theorem settle_matched {μ : Type} (closest : List Nat) (s : Search μ Outcome) :
    (settle closest s).matched = (s.toList.find? (·.left.isEmpty)).map Outcome.matched := by
  induction s generalizing closest with
  | done memo => rfl
  | yield o memo resume ih =>
    rw [settle, Search.toList, List.find?_cons]
    by_cases ho : o.left.isEmpty = true
    · rw [if_pos ho, ho]
      rfl
    · rw [if_neg ho, Bool.eq_false_iff.mpr ho]
      exact ih memo _

variable (tokens) in
/-- **What is found for the node is what plain backtracking finds.** -/
structure Agrees (n : Node κ) (memo : Failures κ) : Prop where
  outcomes : ∀ left, (n.outcomes tokens left memo).toList =
    firsts ((enumerate tokens n.pattern).list left)
  matched : ∀ closest, (settle closest (n.outcomes tokens (everything tokens) memo)).matched =
    (((enumerate tokens n.pattern).list (everything tokens)).find? (·.left.isEmpty)).map
      Outcome.matched

theorem Sound.agrees {memo : Failures κ} {n : Node κ} (h : Sound tokens known memo)
    (hk : Together known) (hn : known n) : Agrees tokens n memo where
  outcomes left := (outcomes_gives hk n hn left memo h).toList_eq
  matched closest := by
    rw [settle_matched, (outcomes_gives hk n hn _ memo h).toList_eq, find?_firsts List.isEmpty]

section Plain

variable {memo : Memo}

theorem agrees_plain (h : Sound tokens IsPlain memo) (p : Pattern) :
    Agrees tokens (.ofPattern p) memo :=
  h.agrees together_isPlain ⟨p, rfl⟩

theorem toList_outcomes (h : Sound tokens IsPlain memo) (p : Pattern) (left : List Nat) :
    (outcomes tokens p left memo).toList = firsts ((enumerate tokens p).list left) := by
  have hlist := (agrees_plain h p).outcomes left
  rwa [Node.pattern_ofPattern] at hlist

theorem settle_outcomes (h : Sound tokens IsPlain memo) (p : Pattern) (closest : List Nat) :
    (settle closest (outcomes tokens p (everything tokens) memo)).matched =
      (((enumerate tokens p).list (everything tokens)).find? (·.left.isEmpty)).map
        Outcome.matched := by
  have hmatch := (agrees_plain h p).matched closest
  rwa [Node.pattern_ofPattern] at hmatch

theorem run_matched (p : Pattern) :
    (run tokens p).matched =
      (((enumerate tokens p).list (everything tokens)).find? (·.left.isEmpty)).map
        Outcome.matched :=
  settle_outcomes sound_empty p (everything tokens)

/-- Searches with the same answers settle alike. -/
theorem settle_congr {μ ν : Type} {s : Search μ Outcome} {t : Search ν Outcome}
    (h : s.toList = t.toList) (closest : List Nat) : settle closest s = settle closest t := by
  induction s generalizing t closest with
  | done memo =>
    cases t with
    | done memo => rfl
    | yield o memo resume => exact nomatch h
  | yield o memo resume ih =>
    cases t with
    | done memo => exact nomatch h
    | yield o' memo' resume' =>
      obtain ⟨rfl, hrest⟩ := List.cons.inj h
      rw [settle, settle, ih memo hrest]

/-- **A new memo does not depend on the identities**: with any that tell the nodes of a pattern
apart, matching finds what it finds with the patterns for identities. -/
theorem settle_new {n : Node κ} (h : Apart (Node.Among [n])) :
    settle (everything tokens) (n.outcomes tokens (everything tokens) ∅) =
      run tokens n.pattern := by
  have hagrees : Agrees tokens n ∅ :=
    sound_empty.agrees h.together (Node.among_self List.mem_cons_self)
  refine settle_congr ?_ (everything tokens)
  rw [hagrees.outcomes, search, toList_outcomes sound_empty]

end Plain

end Synopsis.Matching
