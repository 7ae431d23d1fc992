import Mathlib.Logic.Relation
import Synopsis.Proofs.Backtracking

/-!
# A matcher in use

A matcher keeps its memo from one search to the next, searches may be begun, asked for answers in
any order and abandoned, and patterns come and go meanwhile. The memo stays sound for the patterns
that were asked about, as long as no two nodes of these have one identity. So it does as long as
they are kept. The memo does not notice when a pattern is gone: what it holds of its nodes is then
taken to be about whichever nodes get their identities.
-/

namespace Synopsis.Matching

open Node (Apart Among IsPlain together_isPlain)
open Search (Gives)

/-- A matcher in use and the patterns that exist at the time. -/
structure Use (κ : Type) [DecidableEq κ] [Hashable κ] where
  living : List (Node κ)
  /-- The patterns that were asked about so far, whether they still exist or not. -/
  asked : List (Node κ)
  memo : Failures κ
  /-- The searches begun and not ended, each with its pattern and waiting for a memo. -/
  searches : List (Node κ × (Failures κ → Search (Failures κ) Outcome))

variable {κ : Type} [DecidableEq κ] [Hashable κ]

namespace Use

/-- A matcher that nothing was asked of. -/
def fresh : Use κ := ⟨[], [], ∅, []⟩

variable (tokens : List Token)

/-- What can happen. A pattern is made of nodes with identities that no other node has at the time,
and may go when no search of it is open. A search runs only when it is asked for an answer, on the
memo as it is then, and any of the searches may be asked next. A match is a search asked until an
answer leaves nothing, and then abandoned. -/
inductive Step : Use κ → Use κ → Prop
  | make {living asked memo searches} (n) : Apart (Among (n :: living)) →
      Step ⟨living, asked, memo, searches⟩ ⟨n :: living, asked, memo, searches⟩
  | drop {before n after asked memo searches} : (∀ s ∈ searches, s.1 ≠ n) →
      Step ⟨before ++ n :: after, asked, memo, searches⟩ ⟨before ++ after, asked, memo, searches⟩
  | start {living asked memo searches} (n left) : n ∈ living →
      Step ⟨living, asked, memo, searches⟩
        ⟨living, n :: asked, memo, (n, n.outcomes tokens left) :: searches⟩
  | answer {living asked memo before n search after o memo' resume} :
      search memo = .yield o memo' resume →
      Step ⟨living, asked, memo, before ++ (n, search) :: after⟩
        ⟨living, asked, memo', before ++ (n, resume) :: after⟩
  | finish {living asked memo before n search after memo'} : search memo = .done memo' →
      Step ⟨living, asked, memo, before ++ (n, search) :: after⟩
        ⟨living, asked, memo', before ++ after⟩
  | abandon {living asked memo before n search after} :
      Step ⟨living, asked, memo, before ++ (n, search) :: after⟩
        ⟨living, asked, memo, before ++ after⟩

/-- What can come of using a matcher. -/
def Reached (u : Use κ) : Prop :=
  Relation.ReflTransGen (Step tokens) fresh u

/-- The memo is sound, and every search goes on with any sound memo to a fixed list of answers. -/
structure Settled (known : Node κ → Prop) (u : Use κ) : Prop where
  memo : Sound tokens known u.memo
  searches : ∀ s ∈ u.searches, ∃ l, ∀ m, Sound tokens known m → Gives (Sound tokens known) (s.2 m) l

variable {tokens} {known : Node κ → Prop} {u v : Use κ}

theorem settled_fresh : Settled tokens known (fresh : Use κ) :=
  ⟨sound_empty, fun _ h => nomatch h⟩

/-- One step keeps the memo sound, if what is asked about is known. -/
theorem Settled.step (hk : Node.Together known) (h : Settled tokens known u)
    (hs : Step tokens u v) (hasked : ∀ n ∈ v.asked, known n) : Settled tokens known v := by
  cases hs with
  | make n => exact ⟨h.memo, h.searches⟩
  | drop => exact ⟨h.memo, h.searches⟩
  | start n left =>
    refine ⟨h.memo, List.forall_mem_cons.mpr ⟨?_, h.searches⟩⟩
    exact ⟨_, outcomes_gives hk n (hasked n List.mem_cons_self) left⟩
  | @answer living asked memo before n search after o memo' resume ha =>
    obtain ⟨l, hl⟩ := h.searches (n, search) (by simp)
    have hg : Gives (Sound tokens known) (search memo) l := hl memo h.memo
    rw [ha] at hg
    obtain ⟨hm, rest, hr⟩ := hg.resumed
    refine ⟨hm, fun s hs => ?_⟩
    rcases List.mem_append.mp hs with hs | hs
    · exact h.searches s (List.mem_append_left _ hs)
    rcases List.mem_cons.mp hs with rfl | hs
    · exact ⟨rest, hr⟩
    · exact h.searches s (by simp [hs])
  | @finish living asked memo before n search after memo' ha =>
    obtain ⟨l, hl⟩ := h.searches (n, search) (by simp)
    have hg : Gives (Sound tokens known) (search memo) l := hl memo h.memo
    rw [ha] at hg
    refine ⟨hg.memo_done, fun s hs => h.searches s ?_⟩
    rcases List.mem_append.mp hs with hs | hs <;> simp [hs]
  | abandon =>
    refine ⟨h.memo, fun s hs => h.searches s ?_⟩
    rcases List.mem_append.mp hs with hs | hs <;> simp [hs]

theorem Step.asked_subset (hs : Step tokens u v) : ∀ n ∈ u.asked, n ∈ v.asked := by
  cases hs with
  | start => exact fun n hn => List.mem_cons_of_mem _ hn
  | make => exact fun n hn => hn
  | drop => exact fun n hn => hn
  | answer => exact fun n hn => hn
  | finish => exact fun n hn => hn
  | abandon => exact fun n hn => hn

/-- A run keeps the memo sound, if all that was asked about is known in the end. -/
theorem Reached.settled (hk : Node.Together known) (h : Reached tokens u)
    (hasked : ∀ n ∈ u.asked, known n) : Settled tokens known u := by
  induction h with
  | refl => exact settled_fresh
  | tail _ hs ih => exact (ih fun n hn => hasked n (hs.asked_subset n hn)).step hk hs hasked

/-- At any time all identities that exist are those of one node each. -/
theorem Reached.apart (h : Reached tokens u) : Apart (Among u.living) := by
  induction h with
  | refl => exact fun m n hm => nomatch hm
  | tail _ hs ih =>
    cases hs with
    | make n hn => exact hn
    | drop =>
      refine ih.of_imp fun n hn => hn.subset fun m hm => ?_
      rcases List.mem_append.mp hm with hm | hm <;> simp [hm]
    | start => exact ih
    | answer => exact ih
    | finish => exact ih
    | abandon => exact ih

end Use

variable (tokens : List Token)

/-- The memo may be found in a matcher after some use if patterns are their own identities, so that
no identity is ever that of another pattern. -/
def Reachable (memo : Memo) : Prop :=
  ∃ u : Use Pattern, u.Reached tokens ∧ (∀ n ∈ u.asked, IsPlain n) ∧ u.memo = memo

variable {tokens}

theorem Reachable.sound {memo : Memo} (h : Reachable tokens memo) : Sound tokens IsPlain memo := by
  obtain ⟨u, hr, hasked, rfl⟩ := h
  exact (hr.settled together_isPlain hasked).memo

theorem reachable_empty : Reachable tokens ∅ :=
  ⟨Use.fresh, .refl, fun _ h => (List.not_mem_nil h).elim, rfl⟩

/-- A pattern that exists is asked about in vain. -/
theorem Use.Reached.fail {living asked : List (Node κ)} {memo memo' : Failures κ} {n : Node κ}
    {left : List Nat} (h : Use.Reached tokens ⟨living, asked, memo, []⟩) (hn : n ∈ living)
    (hfail : n.outcomes tokens left memo = .done memo') :
    Use.Reached tokens ⟨living, n :: asked, memo', []⟩ := by
  have hstart := h.tail (.start n left hn)
  exact hstart.tail (@Use.Step.finish _ _ _ tokens _ _ _ [] n _ [] _ hfail)

/-- The memo after a command was looked for in vain. -/
theorem reachable_after_failure :
    Reachable [.plain "a"] ((∅ : Memo).insert (.leaf (.command "b"), [0])) := by
  have hapart : Apart (Among [Node.ofPattern (.leaf (.command "b"))]) :=
    together_isPlain.apart.of_imp fun n hn => by
      rw [Node.among_cons, Node.ofPattern, Node.within_leaf] at hn
      exact ⟨.leaf (.command "b"), hn.resolve_right Node.among_nil⟩
  have hmade : Use.Reached [.plain "a"] ⟨[Node.ofPattern (.leaf (.command "b"))], [], ∅, []⟩ :=
    Relation.ReflTransGen.refl.tail (.make _ hapart)
  have hfail : (Node.ofPattern (.leaf (.command "b"))).outcomes [.plain "a"] [0] ∅ =
      .done ((∅ : Memo).insert (.leaf (.command "b"), [0])) := by
    simp [Node.ofPattern, Node.outcomes, remember, ofOption, leafOutcome?, firstPositional?,
      Token.isPositional, Token.option?, distinct]
  refine ⟨_, hmade.fail List.mem_cons_self hfail, fun n hn => ?_, rfl⟩
  exact ⟨_, List.mem_singleton.mp hn⟩

/-- **The memo changes nothing as long as identities are not given twice.** Whatever was asked of a
matcher before, what it finds for a pattern is what plain backtracking finds if no node of it has an
identity that another node had of those asked about before. So it is for every pattern that exists
if all patterns asked about before still exist. -/
theorem outcomes_agree_while_kept {u : Use κ} (h : u.Reached tokens) :
    (∀ n, Apart (Among (n :: u.asked)) → Agrees tokens n u.memo) ∧
    ((∀ m ∈ u.asked, m ∈ u.living) → ∀ n ∈ u.living, Agrees tokens n u.memo) := by
  have hagrees : ∀ n, Apart (Among (n :: u.asked)) → Agrees tokens n u.memo := by
    intro n hapart
    have hsettled := h.settled hapart.together fun m hm =>
      Node.among_self (List.mem_cons_of_mem n hm)
    exact hsettled.memo.agrees hapart.together (Node.among_self List.mem_cons_self)
  refine ⟨hagrees, fun hkept n hn => hagrees n (h.apart.of_imp fun m hm => hm.subset ?_)⟩
  exact List.forall_mem_cons.mpr ⟨hn, hkept⟩

/-- A command was looked for in vain and is kept. A pattern that shares it goes on past it. -/
theorem outcomes_agree_after_failure :
    ∃ u : Use Nat, u.Reached [.plain "a"] ∧ u.memo = (∅ : Failures Nat).insert (0, [0]) ∧
      (settle [0] ((Node.either 1 [.leaf 0 (.command "b"), .leaf 2 (.argument "<x>")]).outcomes
        [.plain "a"] [0] u.memo)).matched = some [⟨.argument "<x>", 0, .text "a"⟩] := by
  let command : Node Nat := .leaf 0 (.command "b")
  let choice : Node Nat := .either 1 [command, .leaf 2 (.argument "<x>")]
  have hnodes : ∀ n, Among [choice, command] n →
      n = choice ∨ n = command ∨ n = .leaf 2 (.argument "<x>") := by
    intro n hn
    have hchoice : Node.Within n choice →
        n = choice ∨ n = command ∨ n = .leaf 2 (.argument "<x>") := by
      rw [Node.within_iff]
      simp [choice, command, Node.children]
    simp only [Node.among_cons, Node.among_nil, or_false] at hn
    exact hn.elim hchoice fun h => .inr (.inl (Node.within_leaf.mp h))
  have hapart : Apart (Among [choice, command]) := by
    intro m n hm hn
    rcases hnodes m hm with rfl | rfl | rfl <;> rcases hnodes n hn with rfl | rfl | rfl <;>
      simp [choice, command, Node.identity]
  have hcommand : Use.Reached [.plain "a"] ⟨[command], [], ∅, []⟩ :=
    Relation.ReflTransGen.refl.tail (.make command
      (hapart.of_imp fun n hn => hn.subset fun m hm => List.mem_cons_of_mem _ hm))
  have hfail : command.outcomes [.plain "a"] [0] ∅ =
      .done ((∅ : Failures Nat).insert (0, [0])) := by
    simp [command, Node.outcomes, remember, ofOption, leafOutcome?, firstPositional?,
      Token.isPositional, Token.option?, distinct]
  have hchoice := (hcommand.fail List.mem_cons_self hfail).tail (.make choice hapart)
  have hagrees := (outcomes_agree_while_kept hchoice).2
    (fun n hn => List.mem_cons_of_mem _ hn) choice List.mem_cons_self
  exact ⟨_, hchoice, rfl, (hagrees.matched [0]).trans rfl⟩

/-- **A failure is remembered of a node that has the identity of one that is gone.** A matcher looks
for a command in vain, the command is dropped, and another one gets its identity: the matcher finds
nothing for it although plain backtracking matches it. -/
theorem stale_failure_hides_match :
    Use.Reached [.plain "b"] ⟨[.leaf 0 (.command "b")], [.leaf 0 (.command "a")],
      (∅ : Failures Nat).insert (0, [0]), []⟩ ∧
    ((Node.leaf 0 (.command "b")).outcomes [.plain "b"] [0]
      ((∅ : Failures Nat).insert (0, [0]))).toList = [] ∧
    firsts ((enumerate [.plain "b"] (.leaf (.command "b"))).list [0]) =
      [⟨[], [⟨.command "b", 0, .flag true⟩]⟩] ∧
    ∀ closest, (settle closest ((Node.leaf 0 (.command "b")).outcomes [.plain "b"] [0]
      ((∅ : Failures Nat).insert (0, [0])))).matched = none := by
  have hapart : ∀ l : Leaf, Apart (Among [Node.leaf 0 l]) := by
    intro l m n hm hn _
    simp only [Node.among_cons, Node.within_leaf, Node.among_nil, or_false] at hm hn
    rw [hm, hn]
  have hmade : Use.Reached [.plain "b"] ⟨[Node.leaf 0 (.command "a")], [], ∅, []⟩ :=
    Relation.ReflTransGen.refl.tail (.make _ (hapart _))
  have hfail : (Node.leaf 0 (.command "a")).outcomes [.plain "b"] [0] ∅ =
      .done ((∅ : Failures Nat).insert (0, [0])) := by
    simp [Node.outcomes, remember, ofOption, leafOutcome?, firstPositional?, Token.isPositional,
      Token.option?, distinct]
  have hdropped := (hmade.fail List.mem_cons_self hfail).tail
    (@Use.Step.drop _ _ _ _ [] _ [] _ _ [] fun _ hs => (List.not_mem_nil hs).elim)
  have hhidden : (Node.leaf 0 (.command "b")).outcomes [.plain "b"] [0]
      ((∅ : Failures Nat).insert (0, [0])) = .done ((∅ : Failures Nat).insert (0, [0])) := by
    rw [Node.outcomes, remember, if_pos (by simp)]
  refine ⟨hdropped.tail (.make _ (hapart _)), ?_, rfl, fun closest => ?_⟩
  · rw [hhidden]
    rfl
  · rw [hhidden]
    rfl

end Synopsis.Matching
