import Synopsis.Proofs.MatcherUse

/-!
# Grouping makes no difference

Enumerations one after the other may be bracketed in any way, and so may alternatives; one that
consumes nothing adds nothing. So a group inside a sequence and a choice inside a choice may be
dissolved, and children that may be skipped may be taken one by one: plain backtracking finds the
same ways in the same order, and a search yields the same outcomes.
-/

namespace Synopsis.Matching

namespace Enumeration

/-- An enumeration is what it lists. -/
theorem eq_of_list {e f : Enumeration} (h : ∀ left, e.list left = f.list left) : e = f := by
  obtain ⟨list, shrinks⟩ := e
  obtain ⟨list', shrinks'⟩ := f
  obtain rfl : list = list' := funext h
  rfl

variable (e f g : Enumeration)

theorem finish_followedBy : finish.followedBy e = e := by
  refine eq_of_list fun left => ?_
  show (e.list left).map (Outcome.after []) ++ [] = e.list left
  rw [List.append_nil]
  exact List.map_id (e.list left)

theorem followedBy_finish : e.followedBy finish = e := by
  refine eq_of_list fun left => ?_
  show ((e.list left).flatMap fun o => [Outcome.after o.matched ⟨o.left, []⟩]) = e.list left
  simp only [Outcome.after, List.append_nil, List.flatMap_singleton']

theorem followedBy_assoc : (e.followedBy f).followedBy g = e.followedBy (f.followedBy g) := by
  refine eq_of_list fun left => ?_
  simp only [followedBy, List.flatMap_assoc, List.flatMap_map, List.map_flatMap, List.map_map]
  refine List.flatMap_congr fun o _ => List.flatMap_congr fun p _ => ?_
  refine List.map_congr_left fun q _ => ?_
  simp only [Function.comp_apply, Outcome.after, List.append_assoc]

theorem orElse_assoc : (e.orElse f).orElse g = e.orElse (f.orElse g) :=
  eq_of_list fun _ => List.append_assoc ..

theorem nothing_orElse : nothing.orElse e = e := rfl

theorem orElse_nothing : e.orElse nothing = e :=
  eq_of_list fun _ => List.append_nil _

theorem orElse_followedBy :
    (e.orElse f).followedBy g = (e.followedBy g).orElse (f.followedBy g) :=
  eq_of_list fun _ => List.flatMap_append

end Enumeration

section

variable (tokens : List Token) (skipping : Bool) (p : Pattern) (ps qs : List Pattern)

/-- A child that may be skipped is followed by the others in either case. -/
theorem enumerateAll_cons : enumerateAll tokens skipping (p :: ps) =
    ((enumerate tokens p).orElse (if skipping then .finish else .nothing)).followedBy
      (enumerateAll tokens skipping ps) := by
  rw [enumerateAll, Enumeration.orElse_followedBy]
  cases skipping with
  | true => exact congrArg _ (Enumeration.finish_followedBy _).symm
  | false => rfl

/-- **A sequence may be cut anywhere.** -/
theorem enumerateAll_append : enumerateAll tokens skipping (ps ++ qs) =
    (enumerateAll tokens skipping ps).followedBy (enumerateAll tokens skipping qs) := by
  induction ps with
  | nil =>
    rw [List.nil_append, enumerateAll, Enumeration.finish_followedBy]
  | cons p ps ih =>
    rw [List.cons_append, enumerateAll_cons, ih, enumerateAll_cons, Enumeration.followedBy_assoc]

theorem enumerateAll_singleton : enumerateAll tokens false [p] = enumerate tokens p := by
  rw [enumerateAll_cons, enumerateAll, Enumeration.followedBy_finish]
  exact Enumeration.orElse_nothing _

/-- A group stands for its children. -/
theorem enumerateAll_group :
    enumerateAll tokens false [.required ps] = enumerateAll tokens false ps := by
  rw [enumerateAll_singleton, enumerate]

/-- **Alternatives may be divided anywhere.** -/
theorem enumerateAny_append : enumerateAny tokens (ps ++ qs) =
    (enumerateAny tokens ps).orElse (enumerateAny tokens qs) := by
  induction ps with
  | nil => rw [List.nil_append, enumerateAny, Enumeration.nothing_orElse]
  | cons p ps ih =>
    rw [List.cons_append, enumerateAny, ih, enumerateAny, Enumeration.orElse_assoc]

theorem enumerateAny_singleton : enumerateAny tokens [p] = enumerate tokens p := by
  rw [enumerateAny, enumerateAny, Enumeration.orElse_nothing]

/-- **Children that may be skipped may be taken one by one.** -/
theorem enumerateAll_map_optional :
    enumerateAll tokens false (ps.map fun p => .optional [p]) = enumerateAll tokens true ps := by
  induction ps with
  | nil => rw [List.map_nil, enumerateAll, enumerateAll]
  | cons p ps ih =>
    have hone : enumerate tokens (.optional [p]) = (enumerate tokens p).orElse .finish := by
      rw [enumerate, enumerateAll_cons, enumerateAll, Enumeration.followedBy_finish]
      rfl
    rw [List.map_cons, enumerateAll_cons, ih, hone, enumerateAll_cons]
    congr 1
    exact Enumeration.orElse_nothing _

end

variable {tokens : List Token} {memo memo' : Memo}

/-- Patterns that plain backtracking matches alike have the same outcomes. -/
theorem toList_outcomes_congr (h : Sound tokens Node.IsPlain memo)
    (h' : Sound tokens Node.IsPlain memo') {p q : Pattern}
    (heq : enumerate tokens p = enumerate tokens q) (left : List Nat) :
    (outcomes tokens p left memo).toList = (outcomes tokens q left memo').toList := by
  rw [toList_outcomes h, toList_outcomes h', heq]

/-- **Grouping is neutral.** A group of one is its child, a group inside a group and a choice inside
a choice may be dissolved, and children that may be skipped may be taken one by one. The outcomes
are the same, in the same order and with the same matches, with any memos that patterns which are
kept can have left. -/
theorem outcomes_of_groups (h : Reachable tokens memo) (h' : Reachable tokens memo')
    (left : List Nat) :
    (∀ p, (outcomes tokens (.required [p]) left memo).toList =
      (outcomes tokens p left memo').toList) ∧
    (∀ ps qs rs, (outcomes tokens (.required (ps ++ .required qs :: rs)) left memo).toList =
      (outcomes tokens (.required (ps ++ qs ++ rs)) left memo').toList) ∧
    (∀ ps qs rs, (outcomes tokens (.either (ps ++ .either qs :: rs)) left memo).toList =
      (outcomes tokens (.either (ps ++ qs ++ rs)) left memo').toList) ∧
    (∀ ps, (outcomes tokens (.optional ps) left memo).toList =
      (outcomes tokens (.required (ps.map fun p => .optional [p])) left memo').toList) ∧
    ∀ ps, (outcomes tokens (.shortcut ps) left memo).toList =
      (outcomes tokens (.required (ps.map fun p => .optional [p])) left memo').toList := by
  refine ⟨fun p => ?_, fun ps qs rs => ?_, fun ps qs rs => ?_, fun ps => ?_, fun ps => ?_⟩ <;>
    refine toList_outcomes_congr h.sound h'.sound ?_ left
  · rw [enumerate, enumerateAll_singleton]
  · rw [enumerate, enumerate, ← List.singleton_append, ← List.append_assoc, enumerateAll_append,
      enumerateAll_append, enumerateAll_group, ← enumerateAll_append, ← enumerateAll_append]
  · rw [enumerate, enumerate, ← List.singleton_append, ← List.append_assoc, enumerateAny_append,
      enumerateAny_append, enumerateAny_singleton, enumerate, ← enumerateAny_append,
      ← enumerateAny_append]
  · rw [enumerate, enumerate, enumerateAll_map_optional]
  · rw [enumerate, enumerate, enumerateAll_map_optional]

/-- A group behind options that may be left out, which are two alternatives of a choice. -/
theorem outcomes_of_nested_group :
    Reachable [.plain "a"] ((∅ : Memo).insert (.leaf (.command "b"), [0])) ∧
    Reachable [.plain "a"] ∅ ∧
    (outcomes [.plain "a"] (.required [.optional [.either [.ofOption { short := some "-v" },
      .ofOption { short := some "-w" }]], .required [.leaf (.argument "<x>")]]) [0]
      ((∅ : Memo).insert (.leaf (.command "b"), [0]))).toList =
        [⟨[], [⟨.argument "<x>", 0, .text "a"⟩]⟩] := by
  have hfresh : Reachable [.plain "a"] ∅ := reachable_empty
  have h := (outcomes_of_groups reachable_after_failure hfresh [0]).2.1 [.optional [.either
    [.ofOption { short := some "-v" }, .ofOption { short := some "-w" }]]]
    [.leaf (.argument "<x>")] []
  refine ⟨reachable_after_failure, hfresh, h.trans ?_⟩
  rw [toList_outcomes sound_empty]
  rfl

end Synopsis.Matching
