import Synopsis.Proofs.Grouping
import Synopsis.Proofs.Overlooking
import Synopsis.Proofs.PositionIndependence
import Synopsis.Proofs.Preference

/-!
# An option and its neighbours

An option takes the first token of it that is left, and a neighbour that does not use the option
never takes that token. So the two may change places: each way to match the neighbour without the
token is one to match it with the token in place, which is then still the first one of the option.
The outcomes leave the same in the same order, the matches are the same up to their order, and the
names are bound to the same values, unless an option has the name of a command or an argument.
-/

namespace Synopsis

namespace Matching

variable {tokens : List Token} {o : OptionDef} {q : Pattern}

/-- The same is left, and the matches are the same up to their order. -/
def upToOrder : Correspondence where
  left := Eq
  matched := List.Perm
  nothing := .nil
  append h k := h.append k
  stays := by
    rintro l _ m _ rfl rfl - -
    rfl

theorem upToOrder_aligns (e : Enumeration) : upToOrder.Aligns e e := by
  rintro left _ rfl
  exact List.forall₂_same.mpr fun o _ => ⟨rfl, List.Perm.refl o.matched⟩

/-- The first token of a kind is still the first one as long as it is left. -/
theorem FirstLeft.of_sublist {kind : Token → Bool} {left rest : List Nat} {i : Nat} {t : Token}
    (h : FirstLeft tokens kind left i t) (hs : rest.Sublist left)
    (hi : rest.filter (· == i) = left.filter (· == i)) : FirstLeft tokens kind rest i t := by
  obtain ⟨before, after, rfl, ht, hk, hb⟩ := h
  obtain ⟨before', rest', rfl, hbefore, hrest⟩ := List.sublist_append_iff.mp hs
  have hnot : ∀ {l : List Nat}, l.Sublist before → l.filter (· == i) = [] := by
    intro l hl
    refine List.filter_eq_nil_iff.mpr fun j hj hji => ?_
    have hkind := hb i (beq_iff_eq.mp hji ▸ hl.subset hj) t ht
    exact Bool.false_ne_true (hkind.symm.trans hk)
  have hself : (i :: after).filter (· == i) = i :: after.filter (· == i) :=
    List.filter_cons_of_pos (beq_self_eq_true i)
  rw [List.filter_append, List.filter_append, hnot hbefore, hnot (.refl before), List.nil_append,
    List.nil_append, hself] at hi
  rcases List.sublist_cons_iff.mp hrest with hrest | ⟨after', rfl, -⟩
  · -- a rest that lacks the place has it less often than what was left
    have hle := (hrest.filter (· == i)).length_le
    rw [hi, List.length_cons] at hle
    omega
  · exact ⟨before', after', rfl, ht, hk, fun j hj => hb j (hbefore.subset hj)⟩

/-- All of what is left but a token, and the token at its place. -/
theorem shows_without (left : List Nat) (i : Nat) :
    (Excerpt.whole tokens).Shows (· == i) (left.filter (· == i)) (left.filter (· != i)) left where
  shown := (List.map_id _).symm
  hidden := rfl

theorem overlooks_option {i : Nat} {t : Token} (ht : tokens[i]? = some t)
    (hk : t.isOptionOf o.name = true) (hq : ∀ o', Leaf.option o' ∈ q.leaves → o'.name ≠ o.name) :
    q.Overlooks tokens (· == i) := by
  intro l hl j hj u hu
  obtain rfl := beq_iff_eq.mp hj
  obtain rfl := Option.some.inj (ht.symm.trans hu)
  exact Token.kind_eq_false hk fun o' hlo => hq o' (hlo ▸ hl)

/-- **An option and a neighbour without it may change places.** -/
theorem aligns_swap (hq : ∀ o', Leaf.option o' ∈ q.leaves → o'.name ≠ o.name) :
    upToOrder.Aligns ((enumerate tokens (.ofOption o)).followedBy (enumerate tokens q))
      ((enumerate tokens q).followedBy (enumerate tokens (.ofOption o))) := by
  rintro left _ rfl
  show List.Forall₂ upToOrder.Relates
    ((leafOutcome? tokens (.option o) left).toList.flatMap fun c =>
      ((enumerate tokens q).list c.left).map (Outcome.after c.matched))
    (((enumerate tokens q).list left).flatMap fun r =>
      (leafOutcome? tokens (.option o) r.left).toList.map (Outcome.after r.matched))
  cases hleaf : leafOutcome? tokens (.option o) left with
  | none =>
    -- a token that is not there at first is not there after the neighbour either
    have hnone : firstOption? tokens o.name left = none := Option.map_eq_none_iff.mp hleaf
    have hlater : (((enumerate tokens q).list left).flatMap fun r =>
        (leafOutcome? tokens (.option o) r.left).toList.map (Outcome.after r.matched)) = [] := by
      refine List.flatMap_eq_nil_iff.mpr fun r hr => ?_
      have hsub := (enumerate tokens q).shrinks left r hr
      have hrest : firstOption? tokens o.name r.left = none :=
        firstOption?_eq_none.mpr fun i hi => firstOption?_eq_none.mp hnone i (hsub.subset hi)
      rw [leafOutcome?, hrest]
      rfl
    rw [hlater]
    exact .nil
  | some c =>
    obtain ⟨i, v, hc, rfl⟩ := leafOutcome?_eq_some.mp hleaf
    cases hc with
    | @option _ _ _ t hfirst =>
      obtain ⟨-, -, -, ht, hk, -⟩ := id hfirst
      have haligns := (Excerpt.whole tokens).aligns (overlooks_option ht hk hq)
        (left.filter (· == i)) _ _ (shows_without left i)
      rw [Option.toList_some, List.flatMap_singleton, List.map_eq_flatMap]
      refine forall₂_flatMap haligns fun r _ r' hr' hrr => ?_
      -- with the token in place it is still the first one once the neighbour is matched
      have hsub := (enumerate tokens q).shrinks left r' hr'
      rw [(Consumes.option (hfirst.of_sublist hsub hrr.left.hidden)).leafOutcome?]
      have hmatched : r'.matched = r.matched := hrr.matched.trans (List.map_id r.matched)
      have hleft : r'.left.filter (· != i) = r.left := hrr.left.shown.trans (List.map_id r.left)
      refine .cons ⟨hleft.symm, ?_⟩ .nil
      show ([_] ++ r.matched).Perm (r'.matched ++ [_])
      rw [hmatched]
      exact List.perm_append_comm

variable (tokens) in
theorem enumerateAll_pair (p q : Pattern) (ps : List Pattern) :
    enumerateAll tokens false (p :: q :: ps) =
      ((enumerate tokens p).followedBy (enumerate tokens q)).followedBy
        (enumerateAll tokens false ps) := by
  have hpair := enumerateAll_append tokens false [p] [q]
  rw [enumerateAll_singleton, enumerateAll_singleton] at hpair
  rw [← hpair, ← enumerateAll_append]
  rfl

variable (tokens) in
/-- Whatever stands around them. -/
theorem aligns_neighbours (hq : ∀ o', Leaf.option o' ∈ q.leaves → o'.name ≠ o.name)
    (before after : List Pattern) :
    upToOrder.Aligns (enumerate tokens (.required (before ++ .ofOption o :: q :: after)))
      (enumerate tokens (.required (before ++ q :: .ofOption o :: after))) := by
  rw [enumerate, enumerate, enumerateAll_append, enumerateAll_append, enumerateAll_pair,
    enumerateAll_pair]
  exact (upToOrder_aligns _).followedBy ((aligns_swap hq).followedBy (upToOrder_aligns _))

/-- Lists of outcomes that leave the same are pruned alike. -/
theorem forall₂_firsts {l l' : List Outcome} (h : List.Forall₂ upToOrder.Relates l l') :
    List.Forall₂ upToOrder.Relates (firsts l) (firsts l') := by
  induction h with
  | nil => exact .nil
  | @cons a b l l' hab _ ih =>
    have hleft : a.left = b.left := hab.left
    refine .cons hab (List.rel_filter (fun x y hxy => ?_) ih)
    have hleft' : x.left = y.left := hxy.left
    show decide (x.left ≠ a.left) = true ↔ decide (y.left ≠ b.left) = true
    rw [hleft, hleft']

/-- The outcomes of the two sequences correspond, with any sound memos. -/
theorem outcomes_of_swap {memo memo' : Memo} (h : Sound tokens Node.IsPlain memo)
    (h' : Sound tokens Node.IsPlain memo')
    (hq : ∀ o', Leaf.option o' ∈ q.leaves → o'.name ≠ o.name) (before after : List Pattern)
    (left : List Nat) :
    List.Forall₂ upToOrder.Relates
      (outcomes tokens (.required (before ++ .ofOption o :: q :: after)) left memo).toList
      (outcomes tokens (.required (before ++ q :: .ofOption o :: after)) left memo').toList := by
  rw [toList_outcomes h, toList_outcomes h']
  exact forall₂_firsts (aligns_neighbours tokens hq before after left left rfl)

variable (tokens) in
/-- The one sequence matches exactly if the other does, by the same matches up to their order. -/
theorem match_of_swap (hq : ∀ o', Leaf.option o' ∈ q.leaves → o'.name ≠ o.name)
    (before after : List Pattern) :
    Option.Rel List.Perm (run tokens (.required (before ++ .ofOption o :: q :: after))).matched
      (run tokens (.required (before ++ q :: .ofOption o :: after))).matched :=
  upToOrder.rel_run (fun hleft => congrArg List.isEmpty (Eq.symm hleft))
    (aligns_neighbours tokens hq before after) rfl

end Matching

namespace Pattern

variable {p q : Pattern} (before after : List Pattern)

theorem multiplicity_swap (name : String) :
    (required (before ++ p :: q :: after)).multiplicity name =
      (required (before ++ q :: p :: after)).multiplicity name := by
  simp only [multiplicity, multiplicitySum_append, multiplicitySum]
  omega

theorem leaves_swap : (required (before ++ p :: q :: after)).leaves =
    leavesAll before ++ (p.leaves ++ q.leaves) ++ leavesAll after := by
  simp only [leaves, leavesAll_append, leavesAll, List.append_assoc]

/-- Two parts without a common name may change places without any effect on the actions of the
names. -/
theorem get?_actions_swap (h : ∀ l ∈ p.leaves, ∀ k ∈ q.leaves, l.name ≠ k.name) (name : String) :
    Keyed.get? Prod.fst name (required (before ++ p :: q :: after)).actions =
      Keyed.get? Prod.fst name (required (before ++ q :: p :: after)).actions := by
  have hpair : (p.leaves ++ q.leaves).find? (·.name = name) =
      (q.leaves ++ p.leaves).find? (·.name = name) := by
    rw [List.find?_append, List.find?_append]
    cases hp : p.leaves.find? (·.name = name) with
    | none => rw [Option.none_or, Option.or_none]
    | some l =>
      have hnone : q.leaves.find? (·.name = name) = none := by
        refine List.find?_eq_none.mpr fun k hk hkn => ?_
        have hl := List.find?_some hp
        exact h l (List.mem_of_find?_eq_some hp) k hk
          ((of_decide_eq_true hl).trans (of_decide_eq_true hkn).symm)
      rw [hnone, Option.none_or, Option.or_none]
  have hfind : (leavesAll before ++ (p.leaves ++ q.leaves) ++ leavesAll after).find?
        (·.name = name) =
      (leavesAll before ++ (q.leaves ++ p.leaves) ++ leavesAll after).find? (·.name = name) := by
    rw [List.find?_append, List.find?_append, hpair, ← List.find?_append, ← List.find?_append]
  rw [get?_actions, get?_actions, leaves_swap, leaves_swap, hfind]
  simp only [multiplicity_swap]

end Pattern

namespace Matching

variable {tokens : List Token} {o : OptionDef} {q : Pattern}

/-- **The bindings of two matches agree name by name** if the matches and the actions of the names
do. -/
theorem bindings_agree {p p' : Pattern} {ms ms' : List LeafMatch}
    (h : (run tokens p).matched = some ms) (h' : (run tokens p').matched = some ms')
    (hperm : ms.Perm ms') (hactions : ∀ name, Keyed.get? Prod.fst name p.actions =
      Keyed.get? Prod.fst name p'.actions) :
    ∃ b b', Bindings.reduce ms p.actions = .ok b ∧ Bindings.reduce ms' p'.actions = .ok b' ∧
      ∀ name, b.get? name = b'.get? name := by
  have hnodup := (indices_of_run h).nodup_iff.mpr List.nodup_range
  refine ⟨_, _, Bindings.reduce_eq p.nodup_actions (names_of_run h),
    Bindings.reduce_eq p'.nodup_actions (names_of_run h'), fun name => ?_⟩
  rw [Bindings.get?, Bindings.get?, Keyed.get?_map_entries, Keyed.get?_map_entries, hactions,
    Bindings.inOrder_eq_of_perm hperm hnodup]

/-- **An option commutes with its neighbours.** A sequence in which an option changes places with a
neighbour that does not use the option has outcomes that leave the same in the same order, with the
same matches up to their order, with any memos that patterns which are kept can have left. It
matches the same command lines and, where options have names of their own, it binds each name to the
same value. -/
theorem outcomes_of_neighbours {memo memo' : Memo} (h : Reachable tokens memo)
    (h' : Reachable tokens memo')
    (hq : ∀ o', Leaf.option o' ∈ q.leaves → o'.name ≠ o.name) (before after : List Pattern) :
    (∀ left, List.Forall₂ (fun x y => x.left = y.left ∧ x.matched.Perm y.matched)
      (outcomes tokens (.required (before ++ .ofOption o :: q :: after)) left memo).toList
      (outcomes tokens (.required (before ++ q :: .ofOption o :: after)) left memo').toList) ∧
    Option.Rel List.Perm (run tokens (.required (before ++ .ofOption o :: q :: after))).matched
      (run tokens (.required (before ++ q :: .ofOption o :: after))).matched ∧
    ((Pattern.required (before ++ .ofOption o :: q :: after)).OptionsApart → ∀ ms ms',
      (run tokens (.required (before ++ .ofOption o :: q :: after))).matched = some ms →
      (run tokens (.required (before ++ q :: .ofOption o :: after))).matched = some ms' →
      ∃ b b', Bindings.reduce ms (Pattern.required (before ++ .ofOption o :: q :: after)).actions =
          .ok b ∧
        Bindings.reduce ms' (Pattern.required (before ++ q :: .ofOption o :: after)).actions =
          .ok b' ∧
        ∀ name, b.get? name = b'.get? name) := by
  have hmatch := match_of_swap tokens hq before after
  refine ⟨fun left => (outcomes_of_swap h.sound h'.sound hq before after left).imp
    fun _ _ hxy => ⟨hxy.left, hxy.matched⟩, hmatch, fun hapart ms ms' hms hms' => ?_⟩
  rw [hms, hms'] at hmatch
  cases hmatch with
  | some hperm =>
    refine bindings_agree hms hms' hperm fun name => ?_
    refine Pattern.get?_actions_swap before after (fun l hl k hk heq => ?_) name
    obtain rfl := List.mem_singleton.mp hl
    have hleaf : Leaf.option o ∈
        (Pattern.required (before ++ .ofOption o :: q :: after)).leaves := by
      rw [Pattern.leaves_swap]
      simp [Pattern.ofOption, Pattern.leaves]
    have hkleaf : k ∈ (Pattern.required (before ++ .ofOption o :: q :: after)).leaves := by
      rw [Pattern.leaves_swap]
      simp [hk]
    have hkind := hapart _ hleaf k hkleaf heq
    -- a leaf of the neighbour with the name of the option would be one of the option
    cases k with
    | command name => exact absurd hkind.symm Bool.false_ne_true
    | argument name => exact absurd hkind.symm Bool.false_ne_true
    | option o' => exact hq o' hk heq.symm

/-- A flag in front of an argument that may be left out, and then behind it. -/
theorem match_of_flag_and_argument :
    (∀ o', Leaf.option o' ∈ (Pattern.optional [.leaf (.argument "<x>")]).leaves → o'.name ≠ "-v") ∧
    (Pattern.required [.ofOption { short := some "-v" },
      .optional [.leaf (.argument "<x>")]]).OptionsApart ∧
    ∃ (ms ms' : List LeafMatch) (b b' : Bindings),
      (run [.plain "1", .option { short := some "-v" } "-v" none] (.required
        [.ofOption { short := some "-v" }, .optional [.leaf (.argument "<x>")]])).matched =
          some ms ∧
      (run [.plain "1", .option { short := some "-v" } "-v" none] (.required
        [.optional [.leaf (.argument "<x>")], .ofOption { short := some "-v" }])).matched =
          some ms' ∧
      Bindings.reduce ms (Pattern.required [.ofOption { short := some "-v" },
        .optional [.leaf (.argument "<x>")]]).actions = .ok b ∧
      Bindings.reduce ms' (Pattern.required [.optional [.leaf (.argument "<x>")],
        .ofOption { short := some "-v" }]).actions = .ok b' ∧
      ∀ name, b.get? name = b'.get? name := by
  have hq : ∀ o', Leaf.option o' ∈ (Pattern.optional [.leaf (.argument "<x>")]).leaves →
      o'.name ≠ "-v" := by
    intro o' ho'
    simp [Pattern.leaves, Pattern.leavesAll] at ho'
  have hapart : (Pattern.required [.ofOption { short := some "-v" },
      .optional [.leaf (.argument "<x>")]]).OptionsApart := by
    unfold Pattern.OptionsApart
    decide
  have hfresh : Reachable [.plain "1", .option { short := some "-v" } "-v" none] ∅ :=
    reachable_empty
  have hrun : (run [.plain "1", .option { short := some "-v" } "-v" none] (.required
      [.ofOption { short := some "-v" }, .optional [.leaf (.argument "<x>")]])).matched =
        some [⟨.option { short := some "-v" }, 1, .flag true⟩,
          ⟨.argument "<x>", 0, .text "1"⟩] := by
    rw [run_matched]
    rfl
  have hrun' : (run [.plain "1", .option { short := some "-v" } "-v" none] (.required
      [.optional [.leaf (.argument "<x>")], .ofOption { short := some "-v" }])).matched =
        some [⟨.argument "<x>", 0, .text "1"⟩,
          ⟨.option { short := some "-v" }, 1, .flag true⟩] := by
    rw [run_matched]
    rfl
  have hqo : ∀ o', Leaf.option o' ∈ (Pattern.optional [.leaf (.argument "<x>")]).leaves →
      o'.name ≠ OptionDef.name { short := some "-v" } := hq
  have h := outcomes_of_neighbours hfresh hfresh hqo [] []
  obtain ⟨b, b', hb, hb', hagree⟩ := h.2.2 hapart _ _ hrun hrun'
  exact ⟨hq, hapart, _, _, b, b', hrun, hrun', hb, hb', hagree⟩

end Matching

end Synopsis
