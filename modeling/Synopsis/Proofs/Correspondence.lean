import Mathlib.Data.List.Forall2
import Synopsis.Proofs.Backtracking

/-!
# Outcomes that correspond

Two command lines may be matched alike although their tokens stand in other places, or although one
has tokens that the other lacks. A `Correspondence` says when the same is left on both sides and
when the same was matched; it owes that consuming nothing means the same on both sides. If all
leaves of a pattern have corresponding outcomes, the ways to match the pattern correspond one by
one, in the same order.
-/

namespace Synopsis.Matching

theorem forall₂_flatMap {α β γ δ : Type} {R : α → β → Prop} {S : γ → δ → Prop} {l : List α}
    {l' : List β} (h : List.Forall₂ R l l') {g : α → List γ} {g' : β → List δ}
    (hg : ∀ a ∈ l, ∀ b ∈ l', R a b → List.Forall₂ S (g a) (g' b)) :
    List.Forall₂ S (l.flatMap g) (l'.flatMap g') := by
  induction h with
  | nil => exact .nil
  | @cons a b l l' hab _ ih =>
    rw [List.flatMap_cons, List.flatMap_cons]
    have hfirst := hg a List.mem_cons_self b List.mem_cons_self hab
    exact List.rel_append hfirst
      (ih fun x hx y hy => hg x (List.mem_cons_of_mem a hx) y (List.mem_cons_of_mem b hy))

theorem forall₂_exists_iff {α β : Type} {R : α → β → Prop} {P : α → Prop} {Q : β → Prop}
    {l : List α} {l' : List β} (h : List.Forall₂ R l l') (hPQ : ∀ a b, R a b → (P a ↔ Q b)) :
    (∃ a ∈ l, P a) ↔ ∃ b ∈ l', Q b := by
  induction h with
  | nil => simp
  | cons hab _ ih => rw [List.exists_mem_cons_iff, List.exists_mem_cons_iff, hPQ _ _ hab, ih]

/-- Where the first tokens of its kind correspond, a leaf consumes corresponding tokens. -/
theorem Consumes.carried {xs ys : List Token} {l : Leaf} {left left' : List Nat} {i i' : Nat}
    {v : Value} (hc : Consumes xs l left i v)
    (h : ∀ t, FirstLeft xs l.kind left i t → FirstLeft ys l.kind left' i' t) :
    Consumes ys l left' i' v := by
  cases hc with
  | command hf hr hk => exact .command (h _ hf) hr hk
  | argument hf => exact .argument (h _ hf)
  | option hf => exact .option (h _ hf)

theorem nothing_moved {move : LeafMatch → LeafMatch} : [] = [].map move := rfl

theorem append_of_moved {move : LeafMatch → LeafMatch} {ms ms' more more' : List LeafMatch}
    (h : ms' = ms.map move) (k : more' = more.map move) :
    ms' ++ more' = (ms ++ more).map move := by
  rw [h, k, List.map_append]

/-- **When two command lines are matched alike.** -/
structure Correspondence where
  /-- The same is left on both sides. -/
  left : List Nat → List Nat → Prop
  /-- The same was matched on both sides. -/
  matched : List LeafMatch → List LeafMatch → Prop
  nothing : matched [] []
  append : ∀ {ms ms' more more'}, matched ms ms' → matched more more' →
    matched (ms ++ more) (ms' ++ more')
  /-- What leaves everything on one side does so on the other. -/
  stays : ∀ {l l' m m'}, left l l' → left m m' → m.Sublist l → m'.Sublist l' → (m' = l' ↔ m = l)

namespace Correspondence

variable (c : Correspondence)

/-- The outcomes leave the same and have matched the same. -/
structure Relates (o o' : Outcome) : Prop where
  left : c.left o.left o'.left
  matched : c.matched o.matched o'.matched

/-- The outcomes of the enumerations correspond one by one, whenever the same tokens are left. -/
def Aligns (e e' : Enumeration) : Prop :=
  ∀ left left', c.left left left' → List.Forall₂ c.Relates (e.list left) (e'.list left')

variable {c} {e e' f f' : Enumeration}

theorem Relates.after {o o' p p' : Outcome} (h : c.Relates o o') (k : c.Relates p p') :
    c.Relates (p.after o.matched) (p'.after o'.matched) :=
  ⟨k.left, c.append h.matched k.matched⟩

theorem Relates.map_after {o o' : Outcome} (h : c.Relates o o') {l l' : List Outcome}
    (k : List.Forall₂ c.Relates l l') :
    List.Forall₂ c.Relates (l.map (Outcome.after o.matched))
      (l'.map (Outcome.after o'.matched)) := by
  rw [List.forall₂_map_left_iff, List.forall₂_map_right_iff]
  exact k.imp fun _ _ hp => h.after hp

namespace Aligns

theorem nothing : c.Aligns .nothing .nothing := fun _ _ _ => .nil

theorem finish : c.Aligns .finish .finish := fun _ _ h => .cons ⟨h, c.nothing⟩ .nil

theorem orElse (h : c.Aligns e e') (k : c.Aligns f f') : c.Aligns (e.orElse f) (e'.orElse f') :=
  fun left left' hleft => List.rel_append (h left left' hleft) (k left left' hleft)

theorem followedBy (h : c.Aligns e e') (k : c.Aligns f f') :
    c.Aligns (e.followedBy f) (e'.followedBy f') := fun left left' hleft =>
  forall₂_flatMap (h left left' hleft) fun o _ o' _ ho =>
    ho.map_after (k o.left o'.left ho.left)

/-- A repetition ends on both sides in the same rounds. -/
theorem oneOrMore (h : c.Aligns e e') : c.Aligns e.oneOrMore e'.oneOrMore := by
  intro left
  induction left using e.rounds_induction with
  | step left ih =>
    intro left' hleft
    show List.Forall₂ c.Relates (e.rounds left) (e'.rounds left')
    rw [e.rounds_eq, e'.rounds_eq]
    refine forall₂_flatMap (h left left' hleft) fun o ho o' ho' hoo => ?_
    have hstays := c.stays hleft hoo.left (e.shrinks left o ho) (e'.shrinks left' o' ho')
    by_cases heq : o.left = left
    · rw [if_pos heq, if_pos (hstays.mpr heq)]
      exact .cons hoo .nil
    · rw [if_neg heq, if_neg fun h' => heq (hstays.mp h')]
      have hmore := ih o ho heq o'.left hoo.left
      exact List.rel_append (hoo.map_after hmore) (.cons hoo .nil)

/-- A leaf has corresponding outcomes if the first tokens of its kind correspond. -/
theorem ofLeaf {xs ys : List Token} {l : Leaf} (place : Nat → Nat)
    (hfirst : ∀ {left left'}, c.left left left' → ∀ {i' t}, FirstLeft ys l.kind left' i' t ↔
      ∃ i, place i = i' ∧ FirstLeft xs l.kind left i t)
    (hplace : Function.Injective place)
    (hremove : ∀ {left left'}, c.left left left' → ∀ {i t}, FirstLeft xs l.kind left i t →
      c.left (left.filter (· != i)) (left'.filter (· != place i)))
    (hmatched : ∀ i v, c.matched [⟨l, i, v⟩] [⟨l, place i, v⟩]) :
    c.Aligns (.ofLeaf xs l) (.ofLeaf ys l) := by
  intro left left' h
  show List.Forall₂ c.Relates (leafOutcome? xs l left).toList (leafOutcome? ys l left').toList
  cases hx : leafOutcome? xs l left with
  | some o =>
    obtain ⟨i, v, hc, rfl⟩ := leafOutcome?_eq_some.mp hx
    have hc' : Consumes ys l left' (place i) v :=
      hc.carried fun t ht => (hfirst h).mpr ⟨i, rfl, ht⟩
    obtain ⟨t, ht⟩ := hc.firstLeft
    rw [hc'.leafOutcome?]
    exact .cons ⟨hremove h ht, hmatched i v⟩ .nil
  | none =>
    cases hy : leafOutcome? ys l left' with
    | none => exact .nil
    | some o' =>
      obtain ⟨i', v, hc, rfl⟩ := leafOutcome?_eq_some.mp hy
      obtain ⟨u, hu⟩ := hc.firstLeft
      obtain ⟨i, rfl, -⟩ := (hfirst h).mp hu
      have hback : ∀ t, FirstLeft ys l.kind left' (place i) t → FirstLeft xs l.kind left i t := by
        intro t ht
        obtain ⟨j, hj, htj⟩ := (hfirst h).mp ht
        rwa [hplace hj] at htj
      rw [(hc.carried hback).leafOutcome?] at hx
      exact nomatch hx

end Aligns

variable {xs ys : List Token}

mutual

/-- **If the leaves of a pattern have corresponding outcomes, so does the pattern.** -/
theorem aligns : ∀ p : Pattern, (∀ l ∈ p.leaves, c.Aligns (.ofLeaf xs l) (.ofLeaf ys l)) →
    c.Aligns (enumerate xs p) (enumerate ys p)
  | .leaf l, h => by
    rw [enumerate, enumerate]
    exact h l (List.mem_singleton.mpr rfl)
  | .required ps, h => by
    rw [enumerate, enumerate]
    exact alignsAll false ps h
  | .optional ps, h => by
    rw [enumerate, enumerate]
    exact alignsAll true ps h
  | .shortcut ps, h => by
    rw [enumerate, enumerate]
    exact alignsAll true ps h
  | .either ps, h => by
    rw [enumerate, enumerate]
    exact alignsAny ps h
  | .oneOrMore p, h => by
    rw [enumerate, enumerate]
    exact (aligns p h).oneOrMore

theorem alignsAll (skipping : Bool) : ∀ ps : List Pattern,
    (∀ l ∈ Pattern.leavesAll ps, c.Aligns (.ofLeaf xs l) (.ofLeaf ys l)) →
    c.Aligns (enumerateAll xs skipping ps) (enumerateAll ys skipping ps)
  | [], _ => by
    rw [enumerateAll, enumerateAll]
    exact .finish
  | p :: ps, h => by
    have hp := aligns p fun l hl => h l (List.mem_append_left _ hl)
    have hps := alignsAll skipping ps fun l hl => h l (List.mem_append_right _ hl)
    have hskip : c.Aligns (if skipping then enumerateAll xs skipping ps else .nothing)
        (if skipping then enumerateAll ys skipping ps else .nothing) := by
      cases skipping with
      | true => exact hps
      | false => exact .nothing
    rw [enumerateAll, enumerateAll]
    exact (hp.followedBy hps).orElse hskip

theorem alignsAny : ∀ ps : List Pattern,
    (∀ l ∈ Pattern.leavesAll ps, c.Aligns (.ofLeaf xs l) (.ofLeaf ys l)) →
    c.Aligns (enumerateAny xs ps) (enumerateAny ys ps)
  | [], _ => by
    rw [enumerateAny, enumerateAny]
    exact .nothing
  | p :: ps, h => by
    have hp := aligns p fun l hl => h l (List.mem_append_left _ hl)
    have hps := alignsAny ps fun l hl => h l (List.mem_append_right _ hl)
    rw [enumerateAny, enumerateAny]
    exact hp.orElse hps

end

variable (c)

/-- The first outcomes that leave nothing correspond. -/
theorem rel_find? (hempty : ∀ {left left'}, c.left left left' → left'.isEmpty = left.isEmpty)
    {l l' : List Outcome} (h : List.Forall₂ c.Relates l l') :
    Option.Rel c.matched ((l.find? (·.left.isEmpty)).map Outcome.matched)
      ((l'.find? (·.left.isEmpty)).map Outcome.matched) := by
  induction h with
  | nil => exact .none
  | @cons o o' l l' ho _ ih =>
    rw [List.find?_cons, List.find?_cons, hempty ho.left]
    cases o.left.isEmpty with
    | true => exact .some ho.matched
    | false => exact ih

/-- **The matches of two command lines correspond.** -/
theorem rel_run (hempty : ∀ {left left'}, c.left left left' → left'.isEmpty = left.isEmpty)
    {p q : Pattern} (h : c.Aligns (enumerate xs p) (enumerate ys q))
    (hleft : c.left (everything xs) (everything ys)) :
    Option.Rel c.matched (run xs p).matched (run ys q).matched := by
  rw [run_matched, run_matched]
  exact c.rel_find? hempty (h _ _ hleft)

end Correspondence

end Synopsis.Matching
