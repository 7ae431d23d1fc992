import Synopsis.Proofs.MatcherUse

/-!
# Derivations

`Derives` says what it means for a pattern to match, with no order of search: a leaf consumes its
token, a sequence chains its children, an optional child may be skipped, an alternative chooses, and
a repetition chains one or more derivations of its child. The ways that plain backtracking finds are
derivations, and whatever a derivation leaves is left by one of them. With the results on the memo
the same holds of the outcomes of a search, so that a match exists if some derivation consumes every
token, and only then.
-/

namespace Synopsis.Matching

variable (tokens : List Token)

mutual

/-- **The pattern matches some of the tokens left**, leaves the rest and has matched these. -/
inductive Derives : Pattern → List Nat → List Nat → List LeafMatch → Prop
  | leaf {l left i v} : Consumes tokens l left i v →
      Derives (.leaf l) left (left.filter (· != i)) [⟨l, i, v⟩]
  | required {ps left rest ms} : DerivesAll false ps left rest ms →
      Derives (.required ps) left rest ms
  | optional {ps left rest ms} : DerivesAll true ps left rest ms →
      Derives (.optional ps) left rest ms
  | shortcut {ps left rest ms} : DerivesAll true ps left rest ms →
      Derives (.shortcut ps) left rest ms
  | either {p ps left rest ms} : p ∈ ps → Derives p left rest ms →
      Derives (.either ps) left rest ms
  | once {p left rest ms} : Derives p left rest ms → Derives (.oneOrMore p) left rest ms
  | again {p left mid rest ms more} : Derives p left mid ms →
      Derives (.oneOrMore p) mid rest more → Derives (.oneOrMore p) left rest (ms ++ more)

/-- The patterns match one after the other; where skipping is allowed, any of them may be left
out. -/
inductive DerivesAll : Bool → List Pattern → List Nat → List Nat → List LeafMatch → Prop
  | nil {skipping left} : DerivesAll skipping [] left left []
  | cons {skipping p ps left mid rest ms more} : Derives p left mid ms →
      DerivesAll skipping ps mid rest more → DerivesAll skipping (p :: ps) left rest (ms ++ more)
  | skip {p ps left rest ms} : DerivesAll true ps left rest ms →
      DerivesAll true (p :: ps) left rest ms

end

variable {tokens}

/-- Every way through the rounds of a repetition is a chain of derivations of its child. -/
theorem derives_of_mem_rounds {p : Pattern} {e : Enumeration}
    (h : ∀ left, ∀ o ∈ e.list left, Derives tokens p left o.left o.matched) (left : List Nat) :
    ∀ o ∈ e.rounds left, Derives tokens (.oneOrMore p) left o.left o.matched := by
  induction left using e.rounds_induction with
  | step left ih =>
    intro o ho
    rcases Enumeration.mem_rounds.mp ho with ho | ⟨first, hf, hne, ho⟩
    · exact .once (h left o ho)
    · obtain ⟨more, hm, rfl⟩ := List.mem_map.mp ho
      exact .again (h left first hf) (ih first hf hne more hm)

mutual

theorem derives_of_mem : ∀ (p : Pattern) (left : List Nat) (o : Outcome),
    o ∈ (enumerate tokens p).list left → Derives tokens p left o.left o.matched
  | .leaf l, left, o, h => by
    rw [enumerate] at h
    obtain ⟨i, v, hc, rfl⟩ := leafOutcome?_eq_some.mp (Option.mem_toList.mp h)
    exact .leaf hc
  | .required ps, left, o, h => by
    rw [enumerate] at h
    exact .required (derivesAll_of_mem false ps left o h)
  | .optional ps, left, o, h => by
    rw [enumerate] at h
    exact .optional (derivesAll_of_mem true ps left o h)
  | .shortcut ps, left, o, h => by
    rw [enumerate] at h
    exact .shortcut (derivesAll_of_mem true ps left o h)
  | .either ps, left, o, h => by
    rw [enumerate] at h
    obtain ⟨p, hp, hd⟩ := derives_of_mem_any ps left o h
    exact .either hp hd
  | .oneOrMore p, left, o, h => by
    rw [enumerate] at h
    exact derives_of_mem_rounds (derives_of_mem p) left o h

theorem derivesAll_of_mem (skipping : Bool) : ∀ (ps : List Pattern) (left : List Nat)
    (o : Outcome), o ∈ (enumerateAll tokens skipping ps).list left →
    DerivesAll tokens skipping ps left o.left o.matched
  | [], left, o, h => by
    rw [enumerateAll] at h
    rw [List.mem_singleton.mp h]
    exact .nil
  | p :: ps, left, o, h => by
    rw [enumerateAll] at h
    rcases List.mem_append.mp h with h | h
    · obtain ⟨head, hh, ho⟩ := List.mem_flatMap.mp h
      obtain ⟨tail, ht, rfl⟩ := List.mem_map.mp ho
      exact .cons (derives_of_mem p left head hh) (derivesAll_of_mem skipping ps head.left tail ht)
    · cases skipping with
      | true => exact .skip (derivesAll_of_mem true ps left o h)
      | false => exact nomatch h

theorem derives_of_mem_any : ∀ (ps : List Pattern) (left : List Nat) (o : Outcome),
    o ∈ (enumerateAny tokens ps).list left → ∃ p ∈ ps, Derives tokens p left o.left o.matched
  | [], left, o, h => by
    rw [enumerateAny] at h
    exact nomatch h
  | p :: ps, left, o, h => by
    rw [enumerateAny] at h
    rcases List.mem_append.mp h with h | h
    · exact ⟨p, List.mem_cons_self, derives_of_mem p left o h⟩
    · obtain ⟨q, hq, hd⟩ := derives_of_mem_any ps left o h
      exact ⟨q, List.mem_cons_of_mem p hq, hd⟩

end

theorem mem_lefts_followedBy {e f : Enumeration} {left mid rest : List Nat}
    (he : mid ∈ lefts (e.list left)) (hf : rest ∈ lefts (f.list mid)) :
    rest ∈ lefts ((e.followedBy f).list left) := by
  obtain ⟨o, ho, rfl⟩ := List.mem_map.mp he
  obtain ⟨q, hq, rfl⟩ := List.mem_map.mp hf
  exact List.mem_map.mpr ⟨q.after o.matched,
    List.mem_flatMap.mpr ⟨o, ho, List.mem_map_of_mem hq⟩, rfl⟩

theorem mem_lefts_rounds_once {e : Enumeration} {left rest : List Nat}
    (h : rest ∈ lefts (e.list left)) : rest ∈ lefts (e.rounds left) := by
  obtain ⟨o, ho, rfl⟩ := List.mem_map.mp h
  exact List.mem_map_of_mem (Enumeration.mem_rounds.mpr (.inl ho))

/-- A round that leaves what there was may be left out, and any other one is followed by all that
further rounds give. -/
theorem mem_lefts_rounds_again {e : Enumeration} {left mid rest : List Nat}
    (h : mid ∈ lefts (e.list left)) (k : rest ∈ lefts (e.rounds mid)) :
    rest ∈ lefts (e.rounds left) := by
  obtain ⟨o, ho, rfl⟩ := List.mem_map.mp h
  by_cases heq : o.left = left
  · rwa [← heq]
  · obtain ⟨q, hq, rfl⟩ := List.mem_map.mp k
    have hmem : q.after o.matched ∈ e.rounds left :=
      Enumeration.mem_rounds.mpr (.inr ⟨o, ho, heq, List.mem_map_of_mem hq⟩)
    exact List.mem_map.mpr ⟨_, hmem, rfl⟩

theorem mem_lefts_any {p : Pattern} {ps : List Pattern} (hp : p ∈ ps) {left rest : List Nat}
    (h : rest ∈ lefts ((enumerate tokens p).list left)) :
    rest ∈ lefts ((enumerateAny tokens ps).list left) := by
  induction ps with
  | nil => exact nomatch hp
  | cons q qs ih =>
    rw [enumerateAny, Enumeration.orElse, lefts, List.map_append]
    rcases List.mem_cons.mp hp with rfl | hp
    · exact List.mem_append_left _ h
    · exact List.mem_append_right _ (ih hp)

mutual

/-- Whatever a derivation leaves, plain backtracking leaves too. -/
theorem Derives.mem_lefts : ∀ {p left rest ms}, Derives tokens p left rest ms →
    rest ∈ lefts ((enumerate tokens p).list left)
  | _, _, _, _, @Derives.leaf _ l left i v h => by
    rw [enumerate]
    have ho : consume l left i v ∈ (leafOutcome? tokens l left).toList :=
      Option.mem_toList.mpr h.leafOutcome?
    exact List.mem_map_of_mem ho
  | _, _, _, _, .required h => by
    rw [enumerate]
    exact h.mem_lefts
  | _, _, _, _, .optional h => by
    rw [enumerate]
    exact h.mem_lefts
  | _, _, _, _, .shortcut h => by
    rw [enumerate]
    exact h.mem_lefts
  | _, _, _, _, .either hp h => by
    rw [enumerate]
    exact mem_lefts_any hp h.mem_lefts
  | _, _, _, _, .once h => by
    rw [enumerate]
    exact mem_lefts_rounds_once h.mem_lefts
  | _, _, _, _, .again h k => by
    have hk := k.mem_lefts
    rw [enumerate] at hk ⊢
    exact mem_lefts_rounds_again h.mem_lefts hk

theorem DerivesAll.mem_lefts : ∀ {skipping ps left rest ms},
    DerivesAll tokens skipping ps left rest ms →
    rest ∈ lefts ((enumerateAll tokens skipping ps).list left)
  | _, _, _, _, _, .nil => by
    rw [enumerateAll]
    exact List.mem_singleton.mpr rfl
  | _, _, _, _, _, .cons h k => by
    rw [enumerateAll, Enumeration.orElse, lefts, List.map_append]
    exact List.mem_append_left _ (mem_lefts_followedBy h.mem_lefts k.mem_lefts)
  | _, _, _, _, _, .skip h => by
    rw [enumerateAll, Enumeration.orElse, lefts, List.map_append]
    exact List.mem_append_right _ h.mem_lefts

end

/-- What derivations leave is what plain backtracking leaves. -/
theorem exists_derives_iff {p : Pattern} {left rest : List Nat} :
    (∃ ms, Derives tokens p left rest ms) ↔ rest ∈ lefts ((enumerate tokens p).list left) := by
  constructor
  · rintro ⟨ms, hd⟩
    exact hd.mem_lefts
  · intro h
    obtain ⟨o, ho, rfl⟩ := List.mem_map.mp h
    exact ⟨o.matched, derives_of_mem p left o ho⟩

/-- Something matches everything exactly if plain backtracking finds a way that leaves nothing. -/
theorem settle_isSome_iff {memo : Memo} (h : Sound tokens Node.IsPlain memo) (p : Pattern)
    (closest : List Nat) :
    (settle closest (outcomes tokens p (everything tokens) memo)).matched.isSome = true ↔
      ∃ ms, Derives tokens p (everything tokens) [] ms := by
  rw [settle_outcomes h, Option.isSome_map, List.find?_isSome]
  constructor
  · rintro ⟨o, ho, hl⟩
    have hd := derives_of_mem p (everything tokens) o ho
    rw [List.isEmpty_iff.mp hl] at hd
    exact ⟨o.matched, hd⟩
  · rintro ⟨ms, hd⟩
    obtain ⟨o, ho, hl⟩ := List.mem_map.mp hd.mem_lefts
    exact ⟨o, ho, List.isEmpty_iff.mpr hl⟩

/-- **The outcomes of a search are derivations, and whatever a derivation leaves is the rest of an
outcome**, with any memo that patterns which are kept can have left. There is a match exactly if
some derivation consumes every token. -/
theorem outcomes_sound_and_complete {memo : Memo} (h : Reachable tokens memo) (p : Pattern) :
    (∀ left, ∀ o ∈ (outcomes tokens p left memo).toList, Derives tokens p left o.left o.matched) ∧
    (∀ left rest ms, Derives tokens p left rest ms →
      ∃ o ∈ (outcomes tokens p left memo).toList, o.left = rest) ∧
    ∀ closest, (settle closest (outcomes tokens p (everything tokens) memo)).matched.isSome = true ↔
      ∃ ms, Derives tokens p (everything tokens) [] ms := by
  refine ⟨fun left o ho => ?_, fun left rest ms hd => ?_, settle_isSome_iff h.sound p⟩
  · rw [toList_outcomes h.sound] at ho
    exact derives_of_mem p left o (mem_of_mem_firsts ho)
  · rw [toList_outcomes h.sound]
    exact List.mem_map.mp (mem_lefts_firsts.mpr hd.mem_lefts)

/-- A repeated argument, looked for after a failure. -/
theorem outcomes_sound_and_complete_after_failure :
    Reachable [.plain "a"] ((∅ : Memo).insert (.leaf (.command "b"), [0])) ∧
    (∃ o ∈ (outcomes [.plain "a"] (.oneOrMore (.leaf (.argument "<x>"))) [0]
      ((∅ : Memo).insert (.leaf (.command "b"), [0]))).toList, o.left = []) ∧
    (settle [0] (outcomes [.plain "a"] (.oneOrMore (.leaf (.argument "<x>"))) [0]
      ((∅ : Memo).insert (.leaf (.command "b"), [0])))).matched.isSome = true := by
  have hd : Derives [.plain "a"] (.oneOrMore (.leaf (.argument "<x>"))) [0] []
      [⟨.argument "<x>", 0, .text "a"⟩] :=
    .once (.leaf (.argument ⟨[], [], rfl, rfl, rfl, nofun⟩))
  have h := outcomes_sound_and_complete reachable_after_failure
    (.oneOrMore (.leaf (.argument "<x>")))
  exact ⟨reachable_after_failure, h.2.1 [0] [] _ hd, (h.2.2 [0]).mpr ⟨_, hd⟩⟩

end Synopsis.Matching
