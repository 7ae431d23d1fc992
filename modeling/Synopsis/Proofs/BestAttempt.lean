import Mathlib.Data.List.Forall2
import Synopsis.Interface
import Synopsis.Proofs.Derivation
import Synopsis.Proofs.Locality

/-!
# The best attempt

While no outcome leaves nothing, a match remembers the least that one left, the first of several. If
it fails it has seen all outcomes by then, and whatever a derivation leaves is left by one of them.
So the report of a mismatch shows the fewest tokens that any attempt has to leave.
-/

namespace Synopsis.Matching

variable {whole rest : List Nat} {rests : List (List Nat)}

/-- **The first of the least length** among some rests, or the whole if none of them is shorter. -/
inductive Nearest (whole : List Nat) (rests : List (List Nat)) : List Nat → Prop
  | attempt {before rest after} : rests = before ++ rest :: after → rest.length < whole.length →
      (∀ r ∈ before, rest.length < r.length) → (∀ r ∈ after, rest.length ≤ r.length) →
      Nearest whole rests rest
  | whole : (∀ r ∈ rests, whole.length ≤ r.length) → Nearest whole rests whole

namespace Nearest

theorem eq_of_append_eq {before before' after after' : List (List Nat)} {other : List Nat}
    (h : before ++ rest :: after = before' ++ other :: after') (hr : rest ∉ before')
    (ho : other ∉ before) : rest = other := by
  rcases List.append_eq_append_iff.mp h with ⟨between, hb, ha⟩ | ⟨between, hb, ha⟩
  · cases between with
    | nil => exact (List.cons.inj ha).1
    | cons r between =>
      obtain ⟨rfl, -⟩ := List.cons.inj ha
      exact absurd (by simp [hb]) hr
  · cases between with
    | nil => exact (List.cons.inj ha).1.symm
    | cons r between =>
      obtain ⟨rfl, -⟩ := List.cons.inj ha
      exact absurd (by simp [hb]) ho

theorem length_le (h : Nearest whole rests rest) : ∀ r ∈ rests, rest.length ≤ r.length := by
  cases h with
  | attempt hrests _ hbefore hafter =>
    intro r hr
    rw [hrests] at hr
    rcases List.mem_append.mp hr with hr | hr
    · exact Nat.le_of_lt (hbefore r hr)
    · rcases List.mem_cons.mp hr with rfl | hr
      · exact Nat.le_refl _
      · exact hafter r hr
  | whole hall => exact hall

theorem eq_or_mem (h : Nearest whole rests rest) : rest = whole ∨ rest ∈ rests := by
  cases h with
  | attempt hrests => exact .inr (hrests ▸ List.mem_append_right _ List.mem_cons_self)
  | whole => exact .inl rfl

/-- There is only one. -/
theorem unique {other : List Nat} (h : Nearest whole rests rest)
    (k : Nearest whole rests other) : rest = other := by
  cases h with
  | whole hall =>
    cases k with
    | whole => rfl
    | attempt hrests hless =>
      have hle := hall other (hrests ▸ List.mem_append_right _ List.mem_cons_self)
      omega
  | @attempt before _ after hrests hless hbefore hafter =>
    have hmem : rest ∈ rests := hrests ▸ List.mem_append_right _ List.mem_cons_self
    cases k with
    | whole hall =>
      have hle := hall rest hmem
      omega
    | @attempt before' _ after' hrests' hless' hbefore' hafter' =>
      have hmem' : other ∈ rests := hrests' ▸ List.mem_append_right _ List.mem_cons_self
      have hle : rest.length ≤ other.length :=
        length_le (.attempt hrests hless hbefore hafter) other hmem'
      have hle' : other.length ≤ rest.length :=
        length_le (.attempt hrests' hless' hbefore' hafter') rest hmem
      refine eq_of_append_eq (hrests.symm.trans hrests') (fun hr => ?_) fun ho => ?_
      · have hlt := hbefore' rest hr
        omega
      · have hlt := hbefore other ho
        omega

/-- A rest that is shorter than the whole takes its place. -/
theorem cons_shorter {first : List Nat} (hless : first.length < whole.length)
    (h : Nearest first rests rest) : Nearest whole (first :: rests) rest := by
  cases h with
  | @attempt before _ after hrests hrest hbefore hafter =>
    exact @attempt _ _ (first :: before) _ after (hrests ▸ rfl) (Nat.lt_trans hrest hless)
      (List.forall_mem_cons.mpr ⟨hrest, hbefore⟩) hafter
  | whole hall => exact @attempt _ _ [] _ rests rfl hless (fun _ hr => nomatch hr) hall

theorem cons_longer {first : List Nat} (hle : whole.length ≤ first.length)
    (h : Nearest whole rests rest) : Nearest whole (first :: rests) rest := by
  cases h with
  | @attempt before _ after hrests hrest hbefore hafter =>
    exact @attempt _ _ (first :: before) _ after (hrests ▸ rfl) hrest
      (List.forall_mem_cons.mpr ⟨Nat.lt_of_lt_of_le hrest hle, hbefore⟩) hafter
  | whole hall => exact .whole (List.forall_mem_cons.mpr ⟨hle, hall⟩)

end Nearest

/-- A search asked to its end without a match has shown its nearest answer. -/
theorem nearest_settle {closest : List Nat} {s : Search Memo Outcome}
    (h : (settle closest s).matched = none) :
    Nearest closest (lefts s.toList) (settle closest s).closest := by
  induction s generalizing closest with
  | done => exact .whole fun _ hr => absurd hr List.not_mem_nil
  | yield o memo resume ih =>
    rw [settle] at h ⊢
    by_cases hdone : o.left.isEmpty = true
    · rw [if_pos hdone] at h
      exact absurd h (Option.some_ne_none o.matched)
    · rw [if_neg hdone] at h ⊢
      by_cases hless : o.left.length < closest.length
      · rw [if_pos hless] at h ⊢
        exact (ih memo h).cons_shorter hless
      · rw [if_neg hless] at h ⊢
        exact (ih memo h).cons_longer (Nat.le_of_not_lt hless)

variable {tokens : List Token} {p : Pattern}

theorem forall₂_filterMap {α β : Type} {f : α → Option β} {l : List α}
    (h : ∀ a ∈ l, (f a).isSome = true) :
    List.Forall₂ (fun a b => f a = some b) l (l.filterMap f) := by
  induction l with
  | nil => exact .nil
  | cons a l ih =>
    obtain ⟨ha, hl⟩ := List.forall_mem_cons.mp h
    obtain ⟨b, hb⟩ := Option.isSome_iff_exists.mp ha
    rw [List.filterMap_cons_some hb]
    exact .cons hb (ih hl)

/-- **The report of a mismatch is the best attempt.** If a command line does not match, then of the
outcomes that are shorter than it the first one of the least length is the closest, or else the
whole line is. No derivation leaves less than that, which is nothing only where there was nothing,
and the report shows it token by token. -/
theorem closest_of_mismatch (h : (run tokens p).matched = none) :
    Nearest (everything tokens) (lefts (search tokens p).toList) (run tokens p).closest ∧
    (∀ rest ms, Derives tokens p (everything tokens) rest ms →
      (run tokens p).closest.length ≤ rest.length) ∧
    ((run tokens p).closest = [] ↔ tokens = []) ∧
    ∀ i : Interface, i.grammar.pattern = p → ∃ left, i.bind tokens = .stopped (.mismatch left) ∧
      List.Forall₂ (fun k text => tokens[k]?.map Token.shown = some text)
        (run tokens p).closest left := by
  have hnearest : Nearest (everything tokens) (lefts (search tokens p).toList)
      (run tokens p).closest := nearest_settle h
  have hrests : lefts (search tokens p).toList =
      lefts (firsts ((enumerate tokens p).list (everything tokens))) :=
    congrArg lefts (toList_outcomes sound_empty p _)
  refine ⟨hnearest, fun rest ms hd => ?_, ⟨fun hnil => ?_, fun hnil => ?_⟩, ?_⟩
  · refine hnearest.length_le rest ?_
    rw [hrests]
    exact mem_lefts_firsts.mpr hd.mem_lefts
  · rcases hnearest.eq_or_mem with hwhole | hmem
    · rw [hnil] at hwhole
      exact List.length_eq_zero_iff.mp (List.range_eq_nil.mp hwhole.symm)
    · obtain ⟨o, ho, hleft⟩ := List.mem_map.mp hmem
      rw [run, settle_matched, Option.map_eq_none_iff, List.find?_eq_none] at h
      exact absurd (List.isEmpty_iff.mpr (hleft.trans hnil)) (h o ho)
  · subst hnil
    exact List.sublist_nil.mp (closest_sublist [] p)
  · rintro i rfl
    refine ⟨_, ?_, forall₂_filterMap fun k hk => ?_⟩
    · rw [Interface.bind, h]
    · have hlt := List.mem_range.mp ((closest_sublist tokens i.grammar.pattern).subset hk)
      rw [List.getElem?_eq_getElem hlt]
      rfl

/-- Two attempts that leave as much, the second token of the line and the first. -/
theorem closest_of_mismatch_tie :
    let tokens : List Token := [.plain "a", .option { short := some "-b" } "-b" none]
    let p : Pattern := .either [.leaf (.argument "<x>"), .ofOption { short := some "-b" }]
    (run tokens p).matched = none ∧ (run tokens p).closest = [1] ∧
      ∀ rest ms, Derives tokens p [0, 1] rest ms → 1 ≤ rest.length := by
  intro tokens p
  have h : (run tokens p).matched = none := by
    rw [run_matched]
    rfl
  have hbest := closest_of_mismatch h
  have hrests : lefts (search tokens p).toList = [[1], [0]] := by
    rw [search, toList_outcomes sound_empty]
    rfl
  have hclosest : (run tokens p).closest = [1] := by
    refine hbest.1.unique ?_
    rw [hrests]
    exact @Nearest.attempt _ _ [] _ [[0]] rfl (by decide) (by simp) (by simp)
  refine ⟨h, hclosest, fun rest ms hd => ?_⟩
  have hle := hbest.2.1 rest ms hd
  rwa [hclosest] at hle

end Synopsis.Matching
