import Mathlib.Data.List.Basic
import Synopsis.Lexeme

/-!
# The pieces of a line that is spread

Spreading a line puts spaces around every bracket, bar and ellipsis, which are called its marks. The
pieces of the line are then cut at its blanks, and a piece in angle brackets may hold marks with the
spaces around them. A piece that does not do so stands in the line as it was.
-/

namespace Synopsis.Lexeme

open Text (isBlank)

variable {s r piece gap : List Char} {c : Char}

/-- A bracket, a bar or an ellipsis. -/
def IsMark (piece : List Char) : Prop :=
  piece = ['.', '.', '.'] ∨ ∃ c, isDelimiter c = true ∧ piece = [c]

/-- The text starts with a mark. -/
def StartsMark (s : List Char) : Prop :=
  ∃ mark r, IsMark mark ∧ s = mark ++ r

/-- A piece is a mark, or there is none in it. -/
def IsWhole (piece : List Char) : Prop :=
  IsMark piece ∨ spread piece = piece

theorem StartsMark.append (h : StartsMark s) (r : List Char) : StartsMark (s ++ r) := by
  obtain ⟨mark, rest, hmark, rfl⟩ := h
  exact ⟨mark, rest ++ r, hmark, List.append_assoc ..⟩

theorem spread_mark (h : IsMark piece) (r : List Char) :
    spread (piece ++ r) = ' ' :: (piece ++ ' ' :: spread r) := by
  rcases h with rfl | ⟨c, hc, rfl⟩
  · rw [List.cons_append, List.cons_append, List.cons_append, spread]
    rfl
  · rw [List.singleton_append, spread.eq_def]
    split
    next heq => exact nomatch heq
    next heq =>
      obtain rfl := (List.cons.inj heq).1
      exact absurd hc (by decide)
    next heq =>
      obtain ⟨rfl, rfl⟩ := List.cons.inj heq
      rw [if_pos hc]
      rfl

theorem spread_cons (h : ¬ StartsMark (c :: r)) : spread (c :: r) = c :: spread r := by
  rw [spread.eq_def]
  split
  next heq => exact nomatch heq
  next heq => exact absurd ⟨['.', '.', '.'], _, .inl rfl, heq⟩ h
  next heq =>
    obtain ⟨rfl, rfl⟩ := List.cons.inj heq
    exact if_neg fun hc => h ⟨[_], _, .inr ⟨_, hc, rfl⟩, rfl⟩

theorem eq_of_isDelimiter (h : isDelimiter c = true) :
    c = '[' ∨ c = ']' ∨ c = '(' ∨ c = ')' ∨ c = '|' := by
  simpa [isDelimiter, or_assoc] using h

/-- No character of a mark is a blank or an angle bracket. -/
theorem IsMark.plain (h : IsMark piece) :
    ∀ c ∈ piece, isBlank c = false ∧ c ≠ '<' ∧ c ≠ '>' := by
  intro c hc
  rcases h with rfl | ⟨d, hd, rfl⟩
  · have hdot : c = '.' := by simpa using hc
    rw [hdot]
    decide
  · obtain rfl := List.mem_singleton.mp hc
    rcases eq_of_isDelimiter hd with rfl | rfl | rfl | rfl | rfl <;> decide

theorem IsMark.exists_cons (h : IsMark piece) :
    ∃ c tail, piece = c :: tail ∧ isBlank c = false := by
  cases piece with
  | nil => rcases h with h | ⟨_, _, h⟩ <;> exact nomatch h
  | cons c tail => exact ⟨c, tail, rfl, (h.plain c List.mem_cons_self).1⟩

/-- A text that starts with a mark starts with a space when it is spread. -/
theorem not_startsMark_of_spread {after : List Char} (h : spread (c :: r) = c :: after) :
    ¬ StartsMark (c :: r) := by
  rintro ⟨mark, rest, hmark, heq⟩
  obtain ⟨d, tail, rfl, hd⟩ := hmark.exists_cons
  obtain rfl := (List.cons.inj heq).1
  rw [heq, spread_mark hmark, List.cons.injEq] at h
  rw [← h.1] at hd
  exact absurd hd (by decide)

/-- A piece with which both a text and the text spread start has no mark in it. -/
theorem spread_prefix {after : List Char} (h : spread (piece ++ r) = piece ++ after) :
    spread piece = piece ∧ spread r = after := by
  induction piece with
  | nil => exact ⟨rfl, h⟩
  | cons c piece ih =>
    rw [List.cons_append, List.cons_append] at h
    have hm := not_startsMark_of_spread h
    have hm' : ¬ StartsMark (c :: piece) := fun hs => hm (hs.append r)
    rw [spread_cons hm, List.cons.injEq] at h
    obtain ⟨hpiece, hr⟩ := ih h.2
    rw [spread_cons hm', hpiece]
    exact ⟨rfl, hr⟩

/-- How a piece ends: it has no blank at all, or its end is a closing angle bracket. -/
def EndsPiece (piece : List Char) : Prop :=
  (∀ c ∈ piece, isBlank c = false) ∨ piece.getLast? = some '>'

/-- A piece that spreading a text cannot bring about: it has no blank, or no mark up to a closing
angle bracket. -/
def IsVerbatim (piece : List Char) : Prop :=
  (∀ c ∈ piece, isBlank c = false) ∨ spread piece = piece ∧ piece.getLast? = some '>'

theorem IsWhole.verbatim (h : IsWhole piece) (hends : EndsPiece piece) : IsVerbatim piece := by
  rcases h with h | h
  · exact .inl fun c hc => (h.plain c hc).1
  · exact hends.imp_right fun hlast => ⟨h, hlast⟩

theorem IsVerbatim.tail (h : IsVerbatim (c :: piece)) : IsVerbatim piece := by
  rcases h with h | ⟨h, hlast⟩
  · exact .inl fun d hd => h d (List.mem_cons_of_mem c hd)
  · rw [spread_cons (not_startsMark_of_spread h), List.cons.injEq] at h
    cases piece with
    | nil => exact .inl nofun
    | cons d piece =>
      rw [List.getLast?_cons_cons] at hlast
      exact .inr ⟨h.2, hlast⟩

/-- Such a piece does not start with the space before a mark. -/
theorem IsVerbatim.ne_mark {mark rest after : List Char} (h : IsVerbatim (c :: piece))
    (hmark : IsMark mark) : ' ' :: (mark ++ ' ' :: spread rest) ≠ c :: (piece ++ after) := by
  intro heq
  obtain ⟨rfl, htail⟩ := List.cons.inj heq
  rcases h with h | ⟨h, hlast⟩
  · exact absurd (h ' ' List.mem_cons_self) (by decide)
  · -- the closing bracket at the end lies behind the mark, so the piece holds the mark
    have hangle : '>' ∉ mark ++ [' '] := by
      intro hmem
      rcases List.mem_append.mp hmem with hmem | hmem
      · exact (hmark.plain _ hmem).2.2 rfl
      · exact absurd (List.mem_singleton.mp hmem) (by decide)
    have hsplit : (mark ++ [' ']) ++ spread rest = piece ++ after := by
      rw [List.append_assoc]
      exact htail
    rcases List.append_eq_append_iff.mp hsplit with ⟨inside, rfl, -⟩ | ⟨inside, hmark', -⟩
    · rw [spread_cons (not_startsMark_of_spread h), List.append_assoc, spread_mark hmark,
        List.cons.injEq] at h
      obtain ⟨d, tail, rfl, hd⟩ := hmark.exists_cons
      rw [← (List.cons.inj h.2).1] at hd
      exact absurd hd (by decide)
    · rcases List.mem_cons.mp (List.mem_of_getLast? hlast) with hmem | hmem
      · exact absurd hmem (by decide)
      · exact hangle (hmark' ▸ List.mem_append_left inside hmem)

/-- Such a piece stands in the text as it was. -/
theorem IsVerbatim.prefix_of_spread {after : List Char} (hpiece : IsVerbatim piece)
    (h : spread s = piece ++ after) : ∃ r, s = piece ++ r ∧ spread r = after := by
  induction piece generalizing s with
  | nil => exact ⟨s, rfl, h⟩
  | cons c piece ih =>
    cases s with
    | nil => exact nomatch h
    | cons d s =>
      by_cases hm : StartsMark (d :: s)
      · obtain ⟨mark, rest, hmark, heq⟩ := hm
        rw [heq, spread_mark hmark] at h
        exact absurd h (hpiece.ne_mark hmark)
      · rw [spread_cons hm, List.cons_append, List.cons.injEq] at h
        obtain ⟨rfl, h⟩ := h
        obtain ⟨r, rfl, hr⟩ := ih hpiece.tail h
        exact ⟨r, rfl, hr⟩

theorem throughAngle?_last {inside rest : List Char} (h : throughAngle? s = some (inside, rest)) :
    inside.getLast? = some '>' := by
  induction s generalizing inside rest with
  | nil => cases h
  | cons c s ih =>
    rw [throughAngle?] at h
    split at h
    next => cases h
    next =>
      split at h
      next hc =>
        obtain ⟨rfl, -⟩ := Prod.mk.inj (Option.some.inj h)
        rw [hc]
        rfl
      next =>
        obtain ⟨⟨more, _⟩, hmore, heq⟩ := Option.map_eq_some_iff.mp h
        obtain ⟨rfl, -⟩ := Prod.mk.inj heq
        have hlast := ih hmore
        rw [List.getLast?_cons, hlast]
        rfl

theorem angled?_last {inside rest : List Char} (h : angled? s = some (inside, rest)) :
    inside.getLast? = some '>' := by
  induction s generalizing inside rest with
  | nil => cases h
  | cons c s ih =>
    rw [angled?] at h
    split at h
    next => cases h
    next =>
      split at h
      next more _ hmore =>
        obtain ⟨rfl, -⟩ := Prod.mk.inj (Option.some.inj h)
        rw [List.getLast?_cons, ih hmore]
        rfl
      next =>
        split at h
        next =>
          obtain ⟨⟨more, _⟩, hmore, heq⟩ := Option.map_eq_some_iff.mp h
          obtain ⟨rfl, -⟩ := Prod.mk.inj heq
          rw [List.getLast?_cons, throughAngle?_last hmore]
          rfl
        next => cases h

theorem next_ends (s : List Char) : EndsPiece (next s).1 := by
  unfold next
  cases h : angled? s with
  | some p => exact .inr (angled?_last h)
  | none =>
    refine .inl fun c hc => ?_
    have hword := List.all_eq_true.mp (List.all_takeWhile (p := (!isBlank ·)) (l := s)) c hc
    simpa using hword

/-- A word without an opening angle bracket ends at the next blank. -/
theorem next_word (hblank : ∀ c ∈ piece, isBlank c = false) (hangle : ∀ c ∈ piece, c ≠ '<')
    (r : List Char) : next (piece ++ ' ' :: r) = (piece, ' ' :: r) := by
  have hnone : angled? (piece ++ ' ' :: r) = none := by
    induction piece with
    | nil => rfl
    | cons c piece ih =>
      rw [List.cons_append, angled?, if_neg (Bool.eq_false_iff.mp (hblank c List.mem_cons_self)),
        ih (fun d hd => hblank d (List.mem_cons_of_mem c hd))
          (fun d hd => hangle d (List.mem_cons_of_mem c hd))]
      exact if_neg (hangle c List.mem_cons_self)
  have hword : ∀ c ∈ piece, (!isBlank c) = true := fun c hc => by rw [hblank c hc]; rfl
  rw [next, hnone, Option.getD_none, word, List.takeWhile_append_of_pos hword,
    List.dropWhile_append_of_pos hword]
  simp [Text.isBlank_space]

theorem pieces_blank (h : isBlank c = true) : pieces (c :: r) = pieces r := by
  rw [pieces, dif_pos h]

theorem pieces_next (h : isBlank c = false) :
    pieces (c :: r) = (next (c :: r)).1 :: pieces (next (c :: r)).2 := by
  rw [pieces, dif_neg (Bool.eq_false_iff.mp h)]

theorem pieces_mark (h : IsMark piece) (r : List Char) :
    pieces (spread (piece ++ r)) = piece :: pieces (spread r) := by
  obtain ⟨c, tail, rfl, hc⟩ := h.exists_cons
  have hnext := next_word (fun d hd => (h.plain d hd).1) (fun d hd => (h.plain d hd).2.1) (spread r)
  rw [List.cons_append] at hnext
  rw [spread_mark h, pieces_blank Text.isBlank_space, List.cons_append, pieces_next hc, hnext,
    pieces_blank Text.isBlank_space]

theorem not_startsMark_blank (h : isBlank c = true) (r : List Char) : ¬ StartsMark (c :: r) := by
  rintro ⟨mark, rest, hmark, heq⟩
  obtain ⟨d, tail, rfl, hd⟩ := hmark.exists_cons
  obtain rfl := (List.cons.inj heq).1
  rw [h] at hd
  exact nomatch hd

theorem spread_blank (h : isBlank c = true) (r : List Char) : spread (c :: r) = c :: spread r :=
  spread_cons (not_startsMark_blank h r)

theorem next_starts (hc : isBlank c = false) (r : List Char) :
    ∃ tail, (next (c :: r)).1 = c :: tail := by
  have happ := next_append (c :: r)
  cases hfirst : (next (c :: r)).1 with
  | nil => exact absurd hfirst (next_ne_nil hc)
  | cons d tail =>
    rw [hfirst] at happ
    obtain rfl := (List.cons.inj happ).1
    exact ⟨tail, rfl⟩

/-- The first piece of a text that starts with neither a blank nor a mark. -/
theorem exists_next (hc : isBlank c = false) (hm : ¬ StartsMark (c :: r)) :
    ∃ tail after, pieces (spread (c :: r)) = (c :: tail) :: pieces after ∧
      spread (c :: r) = c :: tail ++ after ∧ EndsPiece (c :: tail) := by
  obtain ⟨tail, htail⟩ := next_starts hc (spread r)
  have happ := next_append (c :: spread r)
  have hends := next_ends (c :: spread r)
  rw [htail] at happ hends
  rw [spread_cons hm, pieces_next hc, htail]
  exact ⟨tail, _, rfl, happ.symm, hends⟩

theorem pieces_starts (s : List Char) :
    ∀ piece ∈ pieces s, ∃ c tail, piece = c :: tail ∧ isBlank c = false := by
  fun_induction pieces s with
  | case1 => exact nofun
  | case2 c r hc ih => exact ih
  | case3 c r hc _ ih =>
    have hc := Bool.eq_false_iff.mpr hc
    obtain ⟨tail, htail⟩ := next_starts hc r
    exact List.forall_mem_cons.mpr ⟨⟨c, tail, htail, hc⟩, ih⟩

/-- A text is nothing, or starts with a blank, a mark or another piece. -/
theorem text_induction {motive : List Char → Prop} (nil : motive [])
    (blank : ∀ c r, isBlank c = true → motive r → motive (c :: r))
    (mark : ∀ mark r, IsMark mark → motive r → motive (mark ++ r))
    (word : ∀ c r, isBlank c = false → ¬ StartsMark (c :: r) →
      (∀ later : List Char, later.length < (c :: r).length → motive later) → motive (c :: r))
    (s : List Char) : motive s := by
  induction hn : s.length using Nat.strongRecOn generalizing s with
  | _ n ih =>
    subst hn
    cases s with
    | nil => exact nil
    | cons c r =>
      cases hc : isBlank c with
      | true => exact blank c r hc (ih _ (Nat.lt_succ_self _) r rfl)
      | false =>
        by_cases hm : StartsMark (c :: r)
        · obtain ⟨piece, later, hmark, heq⟩ := hm
          rw [heq]
          refine mark piece later hmark (ih _ ?_ later rfl)
          obtain ⟨d, tail, rfl, -⟩ := hmark.exists_cons
          rw [heq, List.length_append, List.length_cons]
          omega
        · exact word c r hc hm fun later hlater => ih _ hlater later rfl

end Synopsis.Lexeme
