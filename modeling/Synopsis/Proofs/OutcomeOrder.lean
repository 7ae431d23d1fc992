import Synopsis.Proofs.Derivation

/-!
# Which outcome comes first

A repetition tries a further round before it settles for what it has, so what a round leads to is
yielded before the tokens it started from. The exception is a round that consumes nothing: it ends
the repetition there and then, before the ways of the child that come after it. Of several
alternatives the first one that matches all tokens decides, whatever the earlier ones left.
-/

namespace Synopsis.Matching

/-- `x` is there, with no `y` before it. -/
def Precedes (l : List (List Nat)) (x y : List Nat) : Prop :=
  x ∈ l.takeWhile (· ≠ y)

instance (l : List (List Nat)) (x y : List Nat) : Decidable (Precedes l x y) :=
  inferInstanceAs (Decidable (x ∈ l.takeWhile (· ≠ y)))

section Precedes

variable {l m : List (List Nat)} {x y z : List Nat}

theorem precedes_cons : Precedes (z :: l) x y ↔ z ≠ y ∧ (x = z ∨ Precedes l x y) := by
  unfold Precedes
  by_cases hz : z = y
  · simp [hz]
  · simp [hz]

theorem Precedes.mem (h : Precedes l x y) : x ∈ l :=
  (List.takeWhile_sublist _).subset h

theorem Precedes.append (h : Precedes l x y) (m : List (List Nat)) : Precedes (l ++ m) x y := by
  induction l with
  | nil => exact nomatch h
  | cons z l ih =>
    obtain ⟨hz, hx⟩ := precedes_cons.mp h
    exact precedes_cons.mpr ⟨hz, hx.imp_right ih⟩

theorem Precedes.append_left (h : Precedes m x y) (hl : y ∉ l) : Precedes (l ++ m) x y := by
  induction l with
  | nil => exact h
  | cons z l ih =>
    have hz : z ≠ y := fun h => hl (h ▸ List.mem_cons_self)
    exact precedes_cons.mpr ⟨hz, .inr (ih fun hy => hl (List.mem_cons_of_mem z hy))⟩

theorem precedes_of_not_mem (hx : x ∈ l) (hy : y ∉ l) : Precedes l x y := by
  obtain ⟨before, after, rfl⟩ := List.append_of_mem hx
  have hbefore : y ∉ before := fun h => hy (List.mem_append_left _ h)
  have hne : x ≠ y := fun h => hy (h ▸ hx)
  exact (precedes_cons.mpr ⟨hne, .inl rfl⟩ : Precedes (x :: after) x y).append_left hbefore

/-- Of two that differ, one comes first. -/
theorem precedes_or (hx : x ∈ l) (hne : x ≠ y) : Precedes l x y ∨ Precedes l y x := by
  induction l with
  | nil => exact nomatch hx
  | cons z l ih =>
    rw [precedes_cons, precedes_cons]
    by_cases hzx : z = x
    · exact .inl ⟨hzx ▸ hne, .inl hzx.symm⟩
    by_cases hzy : z = y
    · exact .inr ⟨hzx, .inl hzy.symm⟩
    · have hmem : x ∈ l := (List.mem_cons.mp hx).resolve_left (Ne.symm hzx)
      exact (ih hmem).imp (fun h => ⟨hzy, .inr h⟩) fun h => ⟨hzx, .inr h⟩

theorem precedes_filter {q : List Nat → Bool} (hx : q x = true) (hy : q y = true) :
    Precedes (l.filter q) x y ↔ Precedes l x y := by
  induction l with
  | nil => rfl
  | cons z l ih =>
    rw [precedes_cons]
    cases hz : q z with
    | true => rw [List.filter_cons_of_pos hz, precedes_cons, ih]
    | false =>
      have hzx : x ≠ z := fun h => Bool.false_ne_true (hz.symm.trans (h ▸ hx))
      have hzy : z ≠ y := fun h => Bool.false_ne_true (hz.symm.trans (h ▸ hy))
      rw [List.filter_cons_of_neg (Bool.eq_false_iff.mp hz), ih]
      simp [hzx, hzy]

/-- Dropping what was left before keeps the order. -/
theorem precedes_firsts {l : List Outcome} :
    Precedes (lefts (firsts l)) x y ↔ Precedes (lefts l) x y := by
  induction l with
  | nil => rfl
  | cons o os ih =>
    have hlefts : lefts (firsts (o :: os)) =
        o.left :: (lefts (firsts os)).filter (· ≠ o.left) := by
      rw [firsts, lefts, List.map_cons, List.filter_map]
      rfl
    show _ ↔ Precedes (o.left :: lefts os) x y
    rw [hlefts, precedes_cons, precedes_cons]
    refine and_congr_right fun hy => or_congr_right' fun hx => ?_
    rw [precedes_filter (decide_eq_true hx) (decide_eq_true (Ne.symm hy)), ih]

variable {os : List Outcome} {f : Outcome → List Outcome}

/-- If `x` comes first wherever an outcome leads to `y`, it comes first in what all lead to. -/
theorem precedes_flatMap (hy : y ∈ lefts (os.flatMap f))
    (h : ∀ o ∈ os, y ∈ lefts (f o) → Precedes (lefts (f o)) x y) :
    Precedes (lefts (os.flatMap f)) x y := by
  induction os with
  | nil => exact nomatch hy
  | cons o os ih =>
    rw [List.flatMap_cons, lefts, List.map_append] at hy ⊢
    by_cases ho : y ∈ lefts (f o)
    · exact (h o List.mem_cons_self ho).append _
    · refine (ih ((List.mem_append.mp hy).resolve_left ho) fun p hp => ?_).append_left ho
      exact h p (List.mem_cons_of_mem o hp)

/-- If each outcome leads to what it leaves and none but those that leave `y` lead to `y`, what
comes first among the outcomes comes first in what they lead to. -/
theorem Precedes.flatMap (h : Precedes (lefts os) x y)
    (hf : ∀ o ∈ os, o.left ≠ y → o.left ∈ lefts (f o) ∧ y ∉ lefts (f o)) :
    Precedes (lefts (os.flatMap f)) x y := by
  induction os with
  | nil => exact nomatch h
  | cons o os ih =>
    obtain ⟨hne, hx⟩ := precedes_cons.mp h
    obtain ⟨hself, hy⟩ := hf o List.mem_cons_self hne
    rw [List.flatMap_cons, lefts, List.map_append]
    rcases hx with rfl | hx
    · exact (precedes_of_not_mem hself hy).append _
    · exact (ih hx fun p hp => hf p (List.mem_cons_of_mem o hp)).append_left hy

end Precedes

/-- Rounds may be followed by one more. -/
theorem mem_lefts_rounds_further {e : Enumeration} {rest next : List Nat} (left : List Nat)
    (h : rest ∈ lefts (e.rounds left)) (k : next ∈ lefts (e.list rest)) :
    next ∈ lefts (e.rounds left) := by
  induction left using e.rounds_induction with
  | step left ih =>
    obtain ⟨o, ho, rfl⟩ := List.mem_map.mp h
    rcases Enumeration.mem_rounds.mp ho with ho | ⟨first, hf, hne, ho⟩
    · exact mem_lefts_rounds_again (List.mem_map_of_mem ho) (mem_lefts_rounds_once k)
    · obtain ⟨more, hm, rfl⟩ := List.mem_map.mp ho
      have hmore : more.left ∈ lefts (e.rounds first.left) := List.mem_map_of_mem hm
      have hlater := ih first hf hne hmore
      exact mem_lefts_rounds_again (List.mem_map_of_mem hf) hlater

/-- **Rounds are tried before they are settled for**: what one more round yields before it yields
the same tokens again, all rounds yield before these. -/
theorem Enumeration.precedes_rounds (e : Enumeration) {rest next : List Nat} (left : List Nat)
    (hrest : rest ∈ lefts (e.rounds left)) (hnext : Precedes (lefts (e.list rest)) next rest) :
    Precedes (lefts (e.rounds left)) next rest := by
  induction left using e.rounds_induction with
  | step left ih =>
    rw [e.rounds_eq_onward] at hrest ⊢
    by_cases hl : rest = left
    · -- whatever follows a round that changes what is left leaves less
      subst hl
      refine hnext.flatMap fun o ho hne => ?_
      rw [lefts_onward hne, List.mem_append, List.mem_append, not_or]
      refine ⟨.inr List.mem_cons_self, fun hmem => ?_, fun h => hne (List.mem_singleton.mp h).symm⟩
      obtain ⟨q, hq, hql⟩ := List.mem_map.mp hmem
      have hle := (e.sublist_of_mem_rounds o.left q hq).length_le
      have hlt := e.shorter ho hne
      rw [hql] at hle
      omega
    · refine precedes_flatMap hrest fun o ho hmem => ?_
      by_cases hol : o.left = left
      · rw [lefts_onward_last hol] at hmem
        exact absurd (List.mem_singleton.mp hmem) hl
      · rw [lefts_onward hol] at hmem ⊢
        by_cases hdeep : rest ∈ lefts (e.rounds o.left)
        · exact (ih o ho hol hdeep).append _
        · -- the round itself comes after all that one more round leads to
          obtain rfl := List.mem_singleton.mp ((List.mem_append.mp hmem).resolve_left hdeep)
          exact (precedes_of_not_mem (mem_lefts_rounds_once hnext.mem) hdeep).append _

section Greed

variable {tokens : List Token} {memo : Memo} {p : Pattern} {left rest next : List Nat}

/-- **Repetition is greedy.** What a further round of the child leaves is an outcome too, and comes
before the one that the round starts from, unless a round that consumes nothing comes first. -/
theorem outcomes_greedy (h : Reachable tokens memo) {ms : List LeafMatch}
    (hrest : rest ∈ lefts (outcomes tokens (.oneOrMore p) left memo).toList)
    (hnext : Derives tokens p rest next ms) (hne : next ≠ rest) :
    next ∈ lefts (outcomes tokens (.oneOrMore p) left memo).toList ∧
    (Precedes (lefts (outcomes tokens (.oneOrMore p) left memo).toList) next rest ∨
      Precedes (lefts (outcomes tokens p rest memo).toList) rest next) := by
  have hround := hnext.mem_lefts
  rw [toList_outcomes h.sound, mem_lefts_firsts, enumerate] at hrest
  rw [toList_outcomes h.sound, toList_outcomes h.sound, mem_lefts_firsts, precedes_firsts,
    precedes_firsts, enumerate]
  refine ⟨mem_lefts_rounds_further left hrest hround, ?_⟩
  exact (precedes_or hround hne).imp_left ((enumerate tokens p).precedes_rounds left hrest)

/-- A repeated optional argument goes on before it stops. -/
theorem outcomes_greedy_optional :
    Reachable [.plain "a"] ((∅ : Memo).insert (.leaf (.command "b"), [0])) ∧
    [0] ∈ lefts (outcomes [.plain "a"] (.oneOrMore (.optional [.leaf (.argument "<x>")])) [0]
      ((∅ : Memo).insert (.leaf (.command "b"), [0]))).toList ∧
    Precedes (lefts (outcomes [.plain "a"] (.oneOrMore (.optional [.leaf (.argument "<x>")])) [0]
      ((∅ : Memo).insert (.leaf (.command "b"), [0]))).toList) [] [0] := by
  have hstop : Derives [.plain "a"] (.oneOrMore (.optional [.leaf (.argument "<x>")])) [0] [0] [] :=
    .once (.optional (.skip .nil))
  have hmore : Derives [.plain "a"] (.optional [.leaf (.argument "<x>")]) [0] []
      [⟨.argument "<x>", 0, .text "a"⟩] :=
    .optional (.cons (.leaf (.argument ⟨[], [], rfl, rfl, rfl, nofun⟩)) .nil)
  have hrest : [0] ∈ lefts (outcomes [.plain "a"]
      (.oneOrMore (.optional [.leaf (.argument "<x>")])) [0]
      ((∅ : Memo).insert (.leaf (.command "b"), [0]))).toList := by
    rw [toList_outcomes reachable_after_failure.sound, mem_lefts_firsts]
    exact hstop.mem_lefts
  have hchild : lefts (outcomes [.plain "a"] (.optional [.leaf (.argument "<x>")]) [0]
      ((∅ : Memo).insert (.leaf (.command "b"), [0]))).toList = [[], [0]] := by
    rw [toList_outcomes reachable_after_failure.sound]
    rfl
  have h := outcomes_greedy reachable_after_failure hrest hmore nofun
  rw [hchild] at h
  exact ⟨reachable_after_failure, hrest, h.2.resolve_right (by decide)⟩

/-- **A round that consumes nothing ends the repetition**, though another way of the child goes on
from the same tokens. -/
theorem outcomes_stop_first :
    [0] ∈ lefts (outcomes [.plain "a"] (.oneOrMore (.either
      [.optional [.ofOption { short := some "-v" }], .leaf (.argument "<x>")])) [0] ∅).toList ∧
    Derives [.plain "a"] (.either
      [.optional [.ofOption { short := some "-v" }], .leaf (.argument "<x>")]) [0] []
      [⟨.argument "<x>", 0, .text "a"⟩] ∧
    ¬ Precedes (lefts (outcomes [.plain "a"] (.oneOrMore (.either
      [.optional [.ofOption { short := some "-v" }], .leaf (.argument "<x>")])) [0] ∅).toList)
      [] [0] := by
  have hstop : Derives [.plain "a"] (.oneOrMore (.either
      [.optional [.ofOption { short := some "-v" }], .leaf (.argument "<x>")])) [0] [0] [] :=
    .once (.either List.mem_cons_self (.optional (.skip .nil)))
  have hmore : Derives [.plain "a"] (.either
      [.optional [.ofOption { short := some "-v" }], .leaf (.argument "<x>")]) [0] []
      [⟨.argument "<x>", 0, .text "a"⟩] :=
    .either (List.mem_cons_of_mem _ List.mem_cons_self)
      (.leaf (.argument ⟨[], [], rfl, rfl, rfl, nofun⟩))
  rw [toList_outcomes sound_empty, precedes_firsts, mem_lefts_firsts]
  refine ⟨hstop.mem_lefts, hmore, fun h => ?_⟩
  rw [enumerate] at h
  change Precedes (lefts (Enumeration.rounds _ [0])) [] [0] at h
  rw [Enumeration.rounds_eq_onward] at h
  exact (precedes_cons.mp h).1 rfl

end Greed

section Alternatives

variable {tokens : List Token}

theorem find?_enumerateAny (q : Outcome → Bool) (ps : List Pattern) (left : List Nat) :
    ((enumerateAny tokens ps).list left).find? q =
      ps.findSome? fun p => ((enumerate tokens p).list left).find? q := by
  induction ps with
  | nil => rw [enumerateAny]; rfl
  | cons p ps ih =>
    rw [enumerateAny, List.findSome?_cons, ← ih]
    refine List.find?_append.trans ?_
    cases ((enumerate tokens p).list left).find? q <;> rfl

theorem settle_either {memo : Memo} (h : Sound tokens Node.IsPlain memo) (ps : List Pattern)
    (closest : List Nat) :
    (settle closest (outcomes tokens (.either ps) (everything tokens) memo)).matched =
      ps.findSome? fun p => (run tokens p).matched := by
  rw [settle_outcomes h, enumerate, find?_enumerateAny, List.map_findSome?]
  exact congrArg (List.findSome? · ps) (funext fun p => (run_matched p).symm)

/-- **The first alternative that matches decides.** A match of several alternatives is that of the
first one that has a match of its own, with any memo that patterns which are kept can have left, and
further alternatives do not change a match. -/
theorem match_of_alternatives {memo : Memo} (h : Reachable tokens memo) (ps : List Pattern) :
    (∀ closest, (settle closest (outcomes tokens (.either ps) (everything tokens) memo)).matched =
      ps.findSome? fun p => (run tokens p).matched) ∧
    ∀ more ms, (run tokens (.either ps)).matched = some ms →
      (run tokens (.either (ps ++ more))).matched = some ms := by
  refine ⟨settle_either h.sound ps, fun more ms hms => ?_⟩
  have hfirst : (ps.findSome? fun p => (run tokens p).matched) = some ms :=
    (settle_either sound_empty ps (everything tokens)).symm.trans hms
  calc (run tokens (.either (ps ++ more))).matched
      = (ps ++ more).findSome? fun p => (run tokens p).matched :=
        settle_either sound_empty (ps ++ more) (everything tokens)
    _ = some ms := by rw [List.findSome?_append, hfirst, Option.some_or]

/-- The third of three alternatives decides, the first one leaving something to match and the second
one known to fail. -/
theorem match_of_third_alternative :
    Reachable [.plain "a"] ((∅ : Memo).insert (.leaf (.command "b"), [0])) ∧
    (∀ closest, (settle closest (outcomes [.plain "a"] (.either [.optional [],
      .leaf (.command "b"), .leaf (.argument "<x>")]) [0]
      ((∅ : Memo).insert (.leaf (.command "b"), [0])))).matched =
        some [⟨.argument "<x>", 0, .text "a"⟩]) ∧
    (run [.plain "a"] (.either
      [.optional [], .leaf (.command "b"), .leaf (.argument "<x>")])).matched =
        some [⟨.argument "<x>", 0, .text "a"⟩] ∧
    (run [.plain "a"] (.either [.optional [], .leaf (.command "b"), .leaf (.argument "<x>"),
      .leaf (.command "a")])).matched = some [⟨.argument "<x>", 0, .text "a"⟩] := by
  have h := match_of_alternatives reachable_after_failure
    [.optional [], .leaf (.command "b"), .leaf (.argument "<x>")]
  have hfirst : (run [.plain "a"] (.either
      [.optional [], .leaf (.command "b"), .leaf (.argument "<x>")])).matched =
      some [⟨.argument "<x>", 0, .text "a"⟩] := (run_matched _).trans rfl
  have halone : ([.optional [], .leaf (.command "b"), .leaf (.argument "<x>")].findSome?
      fun p => (run [.plain "a"] p).matched) = some [⟨.argument "<x>", 0, .text "a"⟩] := by
    simp only [run_matched]
    rfl
  exact ⟨reachable_after_failure, fun closest => (h.1 closest).trans halone, hfirst,
    h.2 [.leaf (.command "a")] _ hfirst⟩

end Alternatives

end Synopsis.Matching
