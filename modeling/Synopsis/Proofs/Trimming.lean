import Mathlib.Data.List.Basic
import Synopsis.Proofs.Lines
import Synopsis.Text.Blank

/-!
# Trimmed texts and their lines

Trimming takes blanks away and nothing else. Of a block of lines, the first of which is not blank,
it takes the blanks before the first line, the lines at the end that are blank, and the blanks
behind the last one that is not: the lines in between stay as they are.
-/

namespace Synopsis.Text

variable {s r l : List Char} {ls rest : List (List Char)} {c : Char}

/-- All characters are blanks. -/
def AllBlank (s : List Char) : Prop :=
  ∀ c ∈ s, isBlank c = true

theorem allBlank_nil : AllBlank [] :=
  List.forall_mem_nil _

theorem allBlank_append : AllBlank (s ++ r) ↔ AllBlank s ∧ AllBlank r :=
  List.forall_mem_append

theorem trimRight_cons_of_ne (h : trimRight r ≠ []) : trimRight (c :: r) = c :: trimRight r := by
  rw [trimRight]
  cases hr : trimRight r with
  | nil => exact absurd hr h
  | cons d t => rfl

theorem trimRight_cons_of_eq (h : trimRight r = []) :
    trimRight (c :: r) = if isBlank c then [] else [c] := by
  rw [trimRight, h]

theorem trimRight_eq_nil_iff : trimRight s = [] ↔ AllBlank s := by
  induction s with
  | nil => exact iff_of_true rfl allBlank_nil
  | cons c s ih =>
    rw [AllBlank, List.forall_mem_cons, ← AllBlank, ← ih]
    by_cases hs : trimRight s = []
    · rw [trimRight_cons_of_eq hs]
      simp [hs]
    · rw [trimRight_cons_of_ne hs]
      simp [hs]

theorem trimRight_append_of_blank (h : AllBlank r) : trimRight (s ++ r) = trimRight s := by
  induction s with
  | nil => exact trimRight_eq_nil_iff.mpr h
  | cons c s ih => rw [List.cons_append, trimRight, trimRight, ih]

theorem trimRight_append_of_ink (h : ¬ AllBlank r) : trimRight (s ++ r) = s ++ trimRight r := by
  have hr : trimRight r ≠ [] := mt trimRight_eq_nil_iff.mp h
  induction s with
  | nil => rfl
  | cons c s ih =>
    have hne : trimRight (s ++ r) ≠ [] := by
      rw [ih]
      exact List.append_ne_nil_of_right_ne_nil s hr
    rw [List.cons_append, trimRight_cons_of_ne hne, ih, List.cons_append]

/-- Trimming at the right takes blanks away. -/
theorem exists_trimRight (s : List Char) : ∃ gap, AllBlank gap ∧ s = trimRight s ++ gap := by
  induction s with
  | nil => exact ⟨[], allBlank_nil, rfl⟩
  | cons c s ih =>
    obtain ⟨gap, hgap, hs⟩ := ih
    by_cases hr : trimRight s = []
    · rw [trimRight_cons_of_eq hr]
      split
      next hc => exact ⟨c :: s, List.forall_mem_cons.mpr ⟨hc, trimRight_eq_nil_iff.mp hr⟩, rfl⟩
      next => exact ⟨s, trimRight_eq_nil_iff.mp hr, rfl⟩
    · rw [trimRight_cons_of_ne hr]
      exact ⟨gap, hgap, congrArg (c :: ·) hs⟩

theorem trimLeft_append_of_blank (h : AllBlank s) : trimLeft (s ++ r) = trimLeft r :=
  List.dropWhile_append_of_pos h

theorem trimLeft_of_blank (h : AllBlank s) : trimLeft s = [] := by
  rw [← List.append_nil s, trimLeft_append_of_blank h]
  rfl

theorem trimLeft_append_of_ink (h : ¬ AllBlank s) : trimLeft (s ++ r) = trimLeft s ++ r := by
  induction s with
  | nil => exact absurd allBlank_nil h
  | cons c s ih =>
    by_cases hc : isBlank c = true
    · have hs : ¬ AllBlank s := fun hs => h (List.forall_mem_cons.mpr ⟨hc, hs⟩)
      rw [List.cons_append, trimLeft, trimLeft, List.dropWhile_cons_of_pos hc,
        List.dropWhile_cons_of_pos hc]
      exact ih hs
    · rw [List.cons_append, trimLeft, trimLeft, List.dropWhile_cons_of_neg hc,
        List.dropWhile_cons_of_neg hc, List.cons_append]

theorem exists_trimLeft (s : List Char) : ∃ gap, AllBlank gap ∧ s = gap ++ trimLeft s :=
  ⟨s.takeWhile isBlank, fun c hc => List.all_eq_true.mp List.all_takeWhile c hc,
    List.takeWhile_append_dropWhile.symm⟩

/-- Blanks behind a text make no difference when it is trimmed. -/
theorem trim_append_of_blank (h : AllBlank r) : trim (s ++ r) = trim s := by
  by_cases hs : AllBlank s
  · rw [trim, trim, trimLeft_append_of_blank hs, trimLeft_of_blank hs, trimLeft_of_blank h]
  · rw [trim, trim, trimLeft_append_of_ink hs, trimRight_append_of_blank h]

theorem trimRight_cons_of_ink (hc : isBlank c = false) (r : List Char) :
    trimRight (c :: r) = c :: trimRight r := by
  by_cases hr : trimRight r = []
  · rw [trimRight_cons_of_eq hr, hc, hr]
    rfl
  · exact trimRight_cons_of_ne hr

theorem trimLeft_append_of_head (hc : isBlank c = false) (s r : List Char) :
    trimLeft (s ++ c :: r) = trimLeft s ++ c :: r := by
  by_cases hs : AllBlank s
  · rw [trimLeft_append_of_blank hs, trimLeft_of_blank hs]
    exact List.dropWhile_cons_of_neg (Bool.eq_false_iff.mp hc)
  · exact trimLeft_append_of_ink hs

theorem trim_append_of_head (hc : isBlank c = false) (s r : List Char) :
    trim (s ++ c :: r) = trimLeft s ++ c :: trimRight r := by
  have hink : ¬ AllBlank (c :: r) := fun h => by
    rw [h c List.mem_cons_self] at hc
    exact nomatch hc
  rw [trim, trimLeft_append_of_head hc, trimRight_append_of_ink hink, trimRight_cons_of_ink hc]

theorem allBlank_joinLines_iff : AllBlank (joinLines ls) ↔ ∀ l ∈ ls, AllBlank l := by
  induction ls with
  | nil => exact iff_of_true allBlank_nil (List.forall_mem_nil _)
  | cons l ls ih =>
    by_cases hls : ls = []
    · subst hls
      rw [List.forall_mem_singleton]
      exact Iff.rfl
    · rw [joinLines_cons hls, allBlank_append, List.forall_mem_cons, ← ih, AllBlank,
        AllBlank, List.forall_mem_cons, and_iff_right isBlank_newline]
      exact Iff.rfl

/-- Behind the last line that is not blank nothing is left, and on it no blanks at the end. -/
theorem exists_trimRight_joinLines (h : ∃ l ∈ ls, ¬ AllBlank l) :
    ∃ kept last dropped, ls = kept ++ last :: dropped ∧ ¬ AllBlank last ∧
      (∀ l ∈ dropped, AllBlank l) ∧
      trimRight (joinLines ls) = joinLines (kept ++ [trimRight last]) := by
  induction ls with
  | nil => simp at h
  | cons l ls ih =>
    by_cases hls : ∃ k ∈ ls, ¬ AllBlank k
    · obtain ⟨kept, last, dropped, rfl, hlast, hdropped, htrim⟩ := ih hls
      refine ⟨l :: kept, last, dropped, rfl, hlast, hdropped, ?_⟩
      have hink : ¬ AllBlank ('\n' :: joinLines (kept ++ last :: dropped)) := by
        rw [← List.singleton_append, allBlank_append, allBlank_joinLines_iff]
        exact fun hall => hlast (hall.2 last (by simp))
      have hne : kept ++ last :: dropped ≠ [] := by simp
      have hne' : kept ++ [trimRight last] ≠ [] := by simp
      have hcons : trimRight (joinLines (kept ++ last :: dropped)) ≠ [] := by
        rw [ne_eq, trimRight_eq_nil_iff, allBlank_joinLines_iff]
        exact fun hall => hlast (hall last (by simp))
      rw [joinLines_cons hne, trimRight_append_of_ink hink, trimRight_cons_of_ne hcons, htrim,
        List.cons_append, joinLines_cons hne']
    · have hblank : ∀ k ∈ ls, AllBlank k := fun k hk => not_not.mp fun hn => hls ⟨k, hk, hn⟩
      have hl : ¬ AllBlank l := by
        obtain ⟨k, hk, hink⟩ := h
        rcases List.mem_cons.mp hk with rfl | hk
        · exact hink
        · exact absurd (hblank k hk) hink
      refine ⟨[], l, ls, rfl, hl, hblank, ?_⟩
      by_cases hnil : ls = []
      · rw [hnil]
        rfl
      · rw [joinLines_cons hnil]
        refine trimRight_append_of_blank (List.forall_mem_cons.mpr ⟨isBlank_newline, ?_⟩)
        exact allBlank_joinLines_iff.mpr hblank

/-- The lines of a trimmed text have no newline if those of the text have none. -/
theorem newline_notMem_trimmed {kept dropped : List (List Char)} {last : List Char}
    (h : ∀ k ∈ kept ++ last :: dropped, '\n' ∉ k) : ∀ k ∈ kept ++ [trimRight last], '\n' ∉ k := by
  obtain ⟨hkept, hlater⟩ := List.forall_mem_append.mp h
  refine List.forall_mem_append.mpr ⟨hkept, List.forall_mem_singleton.mpr fun hmem => ?_⟩
  obtain ⟨gap, -, hlast⟩ := exists_trimRight last
  have hnot := hlater last List.mem_cons_self
  rw [hlast] at hnot
  exact hnot (List.mem_append_left gap hmem)

/-- Trimming lines goes up to the first character with ink, and past it only at the end. -/
theorem trim_joinLines (hc : isBlank c = false) (s r : List Char) (ls : List (List Char)) :
    trim (joinLines ((s ++ c :: r) :: ls)) =
      trimLeft s ++ c :: trimRight (joinLines (r :: ls)) := by
  have htail := joinLines_append_head [c] r ls
  rw [List.singleton_append, List.singleton_append] at htail
  rw [joinLines_append_head, htail, trim_append_of_head hc]

theorem exists_ink (h : ¬ AllBlank s) :
    ∃ gap c r, s = gap ++ c :: r ∧ AllBlank gap ∧ isBlank c = false := by
  obtain ⟨gap, hgap, hs⟩ := exists_trimLeft s
  cases hink : trimLeft s with
  | nil =>
    rw [hink, List.append_nil] at hs
    exact absurd (hs ▸ hgap) h
  | cons c r =>
    have hnot := List.head?_dropWhile_not isBlank s
    rw [← trimLeft, hink] at hnot
    exact ⟨gap, c, r, hink ▸ hs, hgap, hnot⟩

/-- How many newlines are left when a text is trimmed whose first line is not blank: one for each
line below it but the blank ones at the end. -/
theorem exists_count_trim (hl : ¬ AllBlank l) (hnewline : ∀ k ∈ l :: rest, '\n' ∉ k) :
    ∃ kept dropped, rest = kept ++ dropped ∧ (∀ k ∈ dropped, AllBlank k) ∧
      (trim (joinLines (l :: rest))).count '\n' = kept.length := by
  obtain ⟨gap, c, tail, rfl, hgap, hc⟩ := exists_ink hl
  have htrim : trim (joinLines ((gap ++ c :: tail) :: rest)) =
      trimRight (joinLines ((c :: tail) :: rest)) := by
    rw [trim_joinLines hc, trimLeft_of_blank hgap, List.nil_append, ← trimRight_cons_of_ink hc]
    exact congrArg trimRight (joinLines_append_head [c] tail rest).symm
  have hfirst : ¬ AllBlank (c :: tail) := fun hall =>
    nomatch hc.symm.trans (hall c List.mem_cons_self)
  obtain ⟨kept, last, dropped, hlines, -, hdropped, hright⟩ :=
    exists_trimRight_joinLines ⟨c :: tail, List.mem_cons_self (l := rest), hfirst⟩
  have hall : ∀ k ∈ (c :: tail) :: rest, '\n' ∉ k := by
    obtain ⟨hl, hrest⟩ := List.forall_mem_cons.mp hnewline
    exact List.forall_mem_cons.mpr ⟨fun hmem => hl (List.mem_append_right gap hmem), hrest⟩
  rw [hlines] at hall
  have hcount := count_joinLines (by simp) (newline_notMem_trimmed hall)
  rw [List.length_append, List.length_singleton, Nat.succ_inj] at hcount
  rw [htrim, hright, hcount]
  cases kept with
  | nil => exact ⟨[], rest, rfl, (List.cons.inj hlines).2 ▸ hdropped, rfl⟩
  | cons k kept =>
    refine ⟨kept ++ [last], dropped, ?_, hdropped, by simp⟩
    rw [List.append_assoc, List.singleton_append]
    exact (List.cons.inj hlines).2

end Synopsis.Text
