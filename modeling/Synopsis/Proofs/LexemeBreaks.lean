import Mathlib.Data.List.Basic
import Synopsis.Proofs.LexemePlaces

/-!
# Lines broken between lexemes

Spreading a line adds blanks and cutting it into pieces takes blanks away, so the pieces hold the
other characters of the line, its ink, in their order. A line that is broken where one piece ends
and before the next one starts is cut into the same pieces: what is a piece of the line does not
depend on what stands behind the piece.
-/

namespace Synopsis.Lexeme

open Text (isBlank)

variable {s r u v p x y own later piece after : List Char} {c : Char}
  {first second : List (List Char)}

/-- The characters of a text that are no blanks. -/
def ink (s : List Char) : List Char :=
  s.filter (!isBlank ·)

theorem ink_append (s r : List Char) : ink (s ++ r) = ink s ++ ink r :=
  List.filter_append ..

theorem ink_eq_nil_iff : ink s = [] ↔ ∀ c ∈ s, isBlank c = true := by
  rw [ink, List.filter_eq_nil_iff]
  simp

theorem ink_blank (h : isBlank c = true) (s : List Char) : ink (c :: s) = ink s := by
  rw [ink, List.filter_cons_of_neg (by simp [h]), ink]

/-- A text is nothing, or starts with a mark or another character. -/
theorem spread_induction {motive : List Char → Prop} (nil : motive [])
    (mark : ∀ mark r, IsMark mark → motive r → motive (mark ++ r))
    (other : ∀ c r, ¬ StartsMark (c :: r) → motive r → motive (c :: r)) (s : List Char) :
    motive s := by
  induction s using text_induction with
  | nil => exact nil
  | blank c r hc ih => exact other c r (not_startsMark_blank hc r) ih
  | mark mark' r hmark ih => exact mark mark' r hmark ih
  | word c r _ hm ih => exact other c r hm (ih r (Nat.lt_succ_self _))

theorem ink_spread (s : List Char) : ink (spread s) = ink s := by
  induction s using spread_induction with
  | nil => rfl
  | mark mark r hmark ih =>
    rw [spread_mark hmark, ink_blank Text.isBlank_space, ink_append, ink_append,
      ink_blank Text.isBlank_space, ih]
  | other c r hm ih =>
    rw [spread_cons hm, ← List.singleton_append, ink_append, ih, ← ink_append,
      List.singleton_append]

/-- A text may be cut wherever its ink may be cut. -/
theorem exists_ink_split {s p q : List Char} (h : ink s = p ++ q) :
    ∃ u v, s = u ++ v ∧ ink u = p ∧ ink v = q := by
  induction s generalizing p with
  | nil =>
    obtain ⟨rfl, rfl⟩ := List.append_eq_nil_iff.mp h.symm
    exact ⟨[], [], rfl, rfl, rfl⟩
  | cons c s ih =>
    cases p with
    | nil => exact ⟨[], c :: s, rfl, rfl, h⟩
    | cons d p =>
      by_cases hc : isBlank c = true
      · rw [ink_blank hc] at h
        obtain ⟨u, v, rfl, hu, hv⟩ := ih h
        exact ⟨c :: u, v, rfl, by rw [ink_blank hc, hu], hv⟩
      · have hcons : ∀ s, ink (c :: s) = c :: ink s := fun s =>
          List.filter_cons_of_pos (by simp [hc])
        rw [hcons, List.cons_append, List.cons.injEq] at h
        obtain ⟨rfl, h⟩ := h
        obtain ⟨u, v, rfl, hu, hv⟩ := ih h
        exact ⟨c :: u, v, rfl, by rw [hcons, hu], hv⟩

/-- The pieces of a text hold all its ink. -/
theorem ink_pieces (s : List Char) : (pieces s).flatMap ink = ink s := by
  fun_induction pieces s with
  | case1 => rfl
  | case2 c r hc ih => rw [ih, ink_blank hc]
  | case3 c r hc _ ih => rw [List.flatMap_cons, ih, ← ink_append, next_append]

/-- The first closing bracket is the same whatever follows it. -/
theorem throughAngle?_local (h : throughAngle? (p ++ x) = some (p, x)) (y : List Char) :
    throughAngle? (p ++ y) = some (p, y) := by
  induction p with
  | nil => exact absurd (throughAngle?_last h) (Option.some_ne_none _).symm
  | cons c p ih =>
    rw [List.cons_append, throughAngle?] at h ⊢
    split at h
    next => cases h
    next hline =>
      rw [if_neg hline]
      split at h
      next hc =>
        rw [if_pos hc]
        obtain ⟨hp, -⟩ := Prod.mk.inj (Option.some.inj h)
        rw [← (List.cons.inj hp).2]
        rfl
      next hc =>
        obtain ⟨⟨inside, rest⟩, hinside, heq⟩ := Option.map_eq_some_iff.mp h
        obtain ⟨hp, rfl⟩ := Prod.mk.inj heq
        obtain rfl := (List.cons.inj hp).2
        rw [if_neg hc, ih hinside]
        rfl

/-- A bracket that is closed stays so whatever follows. -/
theorem angled?_isSome_append (h : (angled? s).isSome = true) (y : List Char) :
    (angled? (s ++ y)).isSome = true := by
  induction s with
  | nil => cases h
  | cons c s ih =>
    rw [angled?] at h
    rw [List.cons_append, angled?]
    split at h
    next => cases h
    next hc =>
      rw [if_neg hc]
      split at h
      next q hq =>
        obtain ⟨q', hq'⟩ := Option.isSome_iff_exists.mp (ih (by rw [hq]; rfl))
        rw [hq']
        rfl
      next =>
        split at h
        next hangle =>
          obtain ⟨⟨inside, rest⟩, hinside⟩ := Option.isSome_iff_exists.mp (Option.isSome_map ▸ h)
          obtain rfl := throughAngle?_append hinside
          have hmore := throughAngle?_local hinside (rest ++ y)
          rw [← List.append_assoc] at hmore
          split
          next => rfl
          next => rw [if_pos hangle, hmore]; rfl
        next => cases h

theorem angled?_eq_none (h : angled? (s ++ y) = none) : angled? s = none := by
  rw [← Option.not_isSome_iff_eq_none]
  intro hsome
  have hmore := angled?_isSome_append hsome y
  rw [h] at hmore
  exact nomatch hmore

theorem angled?_of_append (h : angled? (p ++ (x ++ y)) = some (p, x ++ y)) :
    angled? (p ++ x) = some (p, x) := by
  induction p with
  | nil => exact absurd rfl (angled?_ne_nil h)
  | cons c p ih =>
    rw [List.cons_append, angled?] at h ⊢
    split at h
    next => cases h
    next hc =>
      rw [if_neg hc]
      split at h
      next inside rest hinside =>
        obtain ⟨hp, rfl⟩ := Prod.mk.inj (Option.some.inj h)
        obtain rfl := (List.cons.inj hp).2
        rw [ih hinside]
      next hnone =>
        rw [← List.append_assoc] at hnone
        rw [angled?_eq_none hnone]
        split at h
        next hangle =>
          obtain ⟨⟨inside, rest⟩, hinside, heq⟩ := Option.map_eq_some_iff.mp h
          obtain ⟨hp, rfl⟩ := Prod.mk.inj heq
          obtain rfl := (List.cons.inj hp).2
          dsimp only
          rw [if_pos hangle, throughAngle?_local hinside x]
          rfl
        next => cases h

/-- **The first lexeme of a text is the same if the text ends earlier behind it.** -/
theorem next_of_append (h : next (p ++ (x ++ y)) = (p, x ++ y)) : next (p ++ x) = (p, x) := by
  unfold next at h ⊢
  cases hangle : angled? (p ++ (x ++ y)) with
  | some q =>
    rw [hangle, Option.getD_some] at h
    rw [angled?_of_append (h ▸ hangle), Option.getD_some]
  | none =>
    have hnone : angled? (p ++ x) = none :=
      angled?_eq_none (y := y) (by rw [List.append_assoc, hangle])
    rw [hangle, Option.getD_none, word, Prod.mk.injEq] at h
    have hp : ∀ c ∈ p, (!isBlank c) = true := fun c hc =>
      List.all_eq_true.mp (List.all_takeWhile (l := p ++ (x ++ y))) c (h.1 ▸ hc)
    rw [List.takeWhile_append_of_pos hp, List.append_right_eq_self] at h
    have hx : x.takeWhile (!isBlank ·) = [] ∧ x.dropWhile (!isBlank ·) = x := by
      cases x with
      | nil => exact ⟨rfl, rfl⟩
      | cons c x =>
        have hc : ¬ (!isBlank c) = true := fun hc => by
          have hnil := h.1
          rw [List.cons_append, List.takeWhile_cons, if_pos hc] at hnil
          cases hnil
        exact ⟨List.takeWhile_cons_of_neg hc, List.dropWhile_cons_of_neg hc⟩
    rw [hnone, Option.getD_none, word, List.takeWhile_append_of_pos hp,
      List.dropWhile_append_of_pos hp, hx.1, hx.2, List.append_nil]

theorem not_startsMark_of_append (h : ¬ StartsMark (s ++ r)) : ¬ StartsMark s :=
  fun hs => h (hs.append r)

/-- If two parts of a text are spread apart, they are so as well if the text ends earlier. -/
theorem spread_append_of_append (h : spread (own ++ (x ++ y)) = spread own ++ spread (x ++ y)) :
    spread (own ++ x) = spread own ++ spread x := by
  induction own using spread_induction with
  | nil => rfl
  | mark mark r hmark ih =>
    rw [List.append_assoc, spread_mark hmark, spread_mark hmark, List.cons_append,
      List.append_assoc, List.cons_append, List.cons.injEq, List.append_right_inj,
      List.cons.injEq] at h
    rw [List.append_assoc, spread_mark hmark, spread_mark hmark, ih h.2.2, List.cons_append,
      List.append_assoc, List.cons_append]
  | other c r hm ih =>
    rw [spread_cons hm, List.cons_append, List.cons_append] at h
    have hmore := not_startsMark_of_spread h
    rw [spread_cons hmore, List.cons.injEq] at h
    rw [← List.append_assoc, ← List.cons_append] at hmore
    rw [List.cons_append, spread_cons (not_startsMark_of_append hmore), spread_cons hm, ih h.2,
      List.cons_append]

/-- A piece that ends in a closing bracket is a part of the text, spread. -/
theorem exists_own_of_angle (h : spread s = piece ++ after) (hlast : piece.getLast? = some '>') :
    ∃ own later, s = own ++ later ∧ spread own = piece ∧ spread later = after ∧
      own.getLast? = some '>' := by
  induction s using spread_induction generalizing piece with
  | nil =>
    obtain ⟨rfl, -⟩ := List.append_eq_nil_iff.mp h.symm
    exact nomatch hlast
  | mark mark r hmark ih =>
    -- the piece goes on behind the mark, which does not end in a bracket
    have hsplit : (' ' :: (mark ++ [' '])) ++ spread r = piece ++ after := by
      rw [← h, spread_mark hmark, List.cons_append, List.append_assoc]
      rfl
    have hangle : '>' ∉ ' ' :: (mark ++ [' ']) := by
      simp only [List.mem_cons, List.mem_append, List.not_mem_nil, or_false, not_or]
      exact ⟨by decide, fun hmem => (hmark.plain _ hmem).2.2 rfl, by decide⟩
    rcases List.append_eq_append_iff.mp hsplit with ⟨tail, rfl, htail⟩ | ⟨tail, hcut, -⟩
    · have hne : tail ≠ [] := by
        rintro rfl
        rw [List.append_nil] at hlast
        exact hangle (List.mem_of_getLast? hlast)
      rw [List.getLast?_append_of_ne_nil _ hne] at hlast
      obtain ⟨own, later, rfl, rfl, hlater, hown⟩ := ih htail hlast
      have hownne : own ≠ [] := by
        rintro rfl
        exact nomatch hown
      refine ⟨mark ++ own, later, (List.append_assoc ..).symm, ?_, hlater, ?_⟩
      · rw [spread_mark hmark, List.cons_append, List.append_assoc]
        rfl
      · rw [List.getLast?_append_of_ne_nil _ hownne, hown]
    · exact absurd (hcut ▸ List.mem_append_left tail (List.mem_of_getLast? hlast)) hangle
  | other c r hm ih =>
    cases piece with
    | nil => exact nomatch hlast
    | cons d piece =>
      rw [spread_cons hm, List.cons_append, List.cons.injEq] at h
      obtain ⟨rfl, h⟩ := h
      by_cases hpiece : piece = []
      · subst hpiece
        obtain rfl := Option.some.inj hlast
        exact ⟨['>'], r, rfl, by decide, h, rfl⟩
      · rw [List.getLast?_cons_of_ne_nil hpiece] at hlast
        obtain ⟨own, later, rfl, rfl, hlater, hown⟩ := ih h hlast
        refine ⟨c :: own, later, rfl, ?_, hlater, ?_⟩
        · rw [← List.cons_append] at hm
          exact spread_cons (not_startsMark_of_append hm)
        · rw [List.getLast?_cons, hown]
          rfl

/-- The first lexeme of a text that starts with neither a blank nor a mark is a part of it,
spread. -/
theorem exists_own (hc : isBlank c = false) (hm : ¬ StartsMark (c :: r)) :
    ∃ own later, c :: r = own ++ later ∧ next (spread (c :: r)) = (spread own, spread later) ∧
      own ≠ [] ∧ ∀ d ∈ own.getLast?, isBlank d = false := by
  obtain ⟨tail, htail⟩ := next_starts hc (spread r)
  have hends := next_ends (c :: spread r)
  have happ := next_append (c :: spread r)
  rw [← spread_cons hm] at htail hends happ
  generalize next (spread (c :: r)) = first at htail hends happ ⊢
  obtain ⟨piece, after⟩ := first
  dsimp only at htail hends happ
  rcases hends with hblank | hlast
  · have hverbatim : IsVerbatim piece := .inl hblank
    obtain ⟨later, hs, rfl⟩ := hverbatim.prefix_of_spread happ.symm
    rw [hs] at happ
    refine ⟨piece, later, hs, ?_, ?_, fun d hd => hblank d (List.mem_of_getLast? hd)⟩
    · obtain ⟨hpiece, -⟩ := spread_prefix happ.symm
      rw [hpiece]
    · rw [htail]
      exact List.cons_ne_nil _ _
  · obtain ⟨own, later, hs, rfl, rfl, hown⟩ := exists_own_of_angle happ.symm hlast
    refine ⟨own, later, hs, rfl, ?_, fun d hd => ?_⟩
    · rintro rfl
      exact nomatch hown
    · rw [hown] at hd
      obtain rfl := Option.some.inj hd
      decide

/-- A text with less ink than another one at the same place ends before it does. -/
theorem exists_inside {more : List Char} (heq : u ++ v = own ++ later) (hne : own ≠ [])
    (hlast : ∀ c ∈ own.getLast?, isBlank c = false) (hink : ink u = ink own ++ more) :
    ∃ inside, u = own ++ inside ∧ later = inside ++ v ∧ ink inside = more := by
  rcases List.append_eq_append_iff.mp heq with ⟨inside, rfl, rfl⟩ | ⟨inside, rfl, rfl⟩
  · -- what is missing of the other text has no ink, so nothing is missing
    rw [ink_append, List.append_assoc, List.self_eq_append_right] at hink
    obtain ⟨hinside, rfl⟩ := List.append_eq_nil_iff.mp hink
    have hnil : inside = [] := by
      by_contra hsome
      obtain ⟨kept, c, rfl⟩ := (List.eq_nil_or_concat' inside).resolve_left hsome
      have hblank := ink_eq_nil_iff.mp hinside c (by simp)
      have hc := hlast c (by simp)
      exact nomatch hc.symm.trans hblank
    subst hnil
    exact ⟨[], by simp, rfl, rfl⟩
  · rw [ink_append, List.append_right_inj] at hink
    exact ⟨inside, rfl, rfl, hink⟩

theorem eq_nil_of_ink (h : pieces (spread s) = first ++ second) (hink : first.flatMap ink = []) :
    first = [] := by
  cases first with
  | nil => rfl
  | cons piece first =>
    have hmem : piece ∈ pieces (spread s) := h ▸ List.mem_cons_self
    obtain ⟨c, tail, rfl, hc⟩ := pieces_starts _ _ hmem
    rw [List.flatMap_cons, List.append_eq_nil_iff, ink_eq_nil_iff] at hink
    exact nomatch hc.symm.trans (hink.1 c List.mem_cons_self)

/-- If the lexeme of a text goes before the cut, it is the first one of the part before the cut. -/
theorem cut_word {inside : List Char} (hc : isBlank c = false) (hm : ¬ StartsMark (c :: (u ++ v)))
    (hu : c :: u = own ++ inside)
    (hnext : next (spread (c :: (u ++ v))) = (spread own, spread (inside ++ v)))
    (hspread : spread (inside ++ v) = spread inside ++ spread v) :
    spread (c :: u ++ v) = spread (c :: u) ++ spread v ∧
      pieces (spread (c :: u)) = spread own :: pieces (spread inside) := by
  have heq : c :: (u ++ v) = own ++ (inside ++ v) := by
    rw [← List.cons_append, hu, List.append_assoc]
  have hless : ¬ StartsMark (c :: u) := by
    rw [← List.cons_append] at hm
    exact not_startsMark_of_append hm
  have hwhole : spread (own ++ (inside ++ v)) = spread own ++ spread (inside ++ v) := by
    have happ := next_append (spread (c :: (u ++ v)))
    rw [hnext, heq] at happ
    exact happ.symm
  have hcut := spread_append_of_append hwhole
  rw [heq, hwhole, hspread] at hnext
  have hfirst := next_of_append hnext
  rw [← hcut, ← hu, spread_cons hless] at hfirst
  constructor
  · rw [List.cons_append, heq, hwhole, hspread, hu, hcut, List.append_assoc]
  · rw [spread_cons hless, pieces_next hc, hfirst]

/-- **A text that is cut behind a lexeme is cut into the same lexemes.** -/
theorem pieces_cut (h : pieces (spread (u ++ v)) = first ++ second)
    (hink : ink u = first.flatMap ink) :
    spread (u ++ v) = spread u ++ spread v ∧ pieces (spread u) = first ∧
      pieces (spread v) = second := by
  induction hn : u.length using Nat.strongRecOn generalizing u first with
  | _ n ih =>
    subst hn
    cases u with
    | nil =>
      obtain rfl := eq_nil_of_ink h hink.symm
      exact ⟨rfl, by rw [spread, pieces], h⟩
    | cons c u =>
      by_cases hc : isBlank c = true
      · rw [ink_blank hc] at hink
        rw [List.cons_append, spread_blank hc, pieces_blank hc] at h
        obtain ⟨hspread, hfirst, hsecond⟩ := ih u.length (Nat.lt_succ_self _) h hink rfl
        rw [List.cons_append, spread_blank hc, spread_blank hc, hspread, pieces_blank hc]
        exact ⟨rfl, hfirst, hsecond⟩
      · cases first with
        | nil => exact absurd (ink_eq_nil_iff.mp hink c List.mem_cons_self) hc
        | cons piece first =>
          rw [Bool.not_eq_true] at hc
          rw [List.flatMap_cons] at hink
          by_cases hm : StartsMark (c :: u ++ v)
          · obtain ⟨mark, r, hmark, heq⟩ := hm
            rw [heq, pieces_mark hmark, List.cons_append, List.cons.injEq] at h
            obtain ⟨rfl, h⟩ := h
            obtain ⟨d, tail, hne, -⟩ := hmark.exists_cons
            obtain ⟨inside, hu, rfl, hinside⟩ := exists_inside heq (hne ▸ List.cons_ne_nil d tail)
              (fun d hd => (hmark.plain d (List.mem_of_getLast? hd)).1) hink
            have hless : inside.length < (c :: u).length := by
              rw [hu, hne, List.length_append, List.length_cons]
              omega
            obtain ⟨hspread, hfirst, hsecond⟩ := ih inside.length hless h hinside rfl
            rw [hu]
            refine ⟨?_, ?_, hsecond⟩
            · rw [List.append_assoc, spread_mark hmark, hspread, spread_mark hmark,
                List.cons_append, List.append_assoc, List.cons_append]
            · rw [pieces_mark hmark, hfirst]
          · rw [List.cons_append] at h hm
            obtain ⟨own, later, heq, hnext, hne, hlast⟩ := exists_own hc hm
            have hpieces := pieces_next (r := spread (u ++ v)) hc
            rw [← spread_cons hm, hnext] at hpieces
            rw [hpieces, List.cons_append, List.cons.injEq] at h
            obtain ⟨rfl, h⟩ := h
            rw [ink_spread] at hink
            obtain ⟨inside, hu, rfl, hinside⟩ := exists_inside heq hne hlast hink
            have hless : inside.length < (c :: u).length := by
              rw [hu, List.length_append]
              exact Nat.lt_add_of_pos_left (List.length_pos_iff.mpr hne)
            obtain ⟨hspread, hfirst, hsecond⟩ := ih inside.length hless h hinside rfl
            obtain ⟨hwhole, hstep⟩ := cut_word hc hm hu hnext hspread
            exact ⟨hwhole, by rw [hstep, hfirst], hsecond⟩

end Synopsis.Lexeme
