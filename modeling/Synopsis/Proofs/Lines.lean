import Mathlib.Data.List.Basic
import Mathlib.Data.List.TakeWhile
import Synopsis.Proofs.LineScan

/-!
# Texts and their lines

A text is its lines with newlines between them, and as such it can be put together and taken apart:
lines that stand above others keep a newline each.
-/

namespace Synopsis.Text

variable {l s k : List Char} {ls more : List (List Char)}

theorem newline_notMem_lines (s : List Char) : ∀ l ∈ lines s, '\n' ∉ l := by
  induction s with
  | nil => simp [lines]
  | cons c r ih =>
    rw [lines]
    split
    · exact List.forall_mem_cons.mpr ⟨List.not_mem_nil, ih⟩
    next hc =>
      split
      next hr => exact absurd hr (lines_ne_nil r)
      next l ls hr =>
        rw [hr] at ih
        obtain ⟨hl, hls⟩ := List.forall_mem_cons.mp ih
        refine List.forall_mem_cons.mpr ⟨?_, hls⟩
        rw [List.mem_cons, not_or]
        exact ⟨Ne.symm hc, hl⟩

theorem lines_of_notMem (h : '\n' ∉ l) : lines l = [l] := by
  induction l with
  | nil => rfl
  | cons c l ih =>
    rw [List.mem_cons, not_or] at h
    rw [lines, if_neg (Ne.symm h.1), ih h.2]

theorem lines_joinLines (hne : ls ≠ []) (h : ∀ l ∈ ls, '\n' ∉ l) : lines (joinLines ls) = ls := by
  induction ls with
  | nil => exact absurd rfl hne
  | cons l ls ih =>
    obtain ⟨hl, hls⟩ := List.forall_mem_cons.mp h
    cases ls with
    | nil => exact lines_of_notMem hl
    | cons k ls =>
      have hcons : k :: ls ≠ [] := List.cons_ne_nil k ls
      rw [joinLines_cons hcons, lines_line hl, ih hcons hls]

theorem joinLines_append_head (s l : List Char) (ls : List (List Char)) :
    joinLines ((s ++ l) :: ls) = s ++ joinLines (l :: ls) := by
  cases ls with
  | nil => rfl
  | cons k ls => exact List.append_assoc ..

/-- Lines above others keep a newline each. -/
theorem joinLines_append {ls more : List (List Char)} (h : more ≠ []) :
    joinLines (ls ++ more) = unlines ls ++ joinLines more := by
  induction ls with
  | nil => rfl
  | cons l ls ih =>
    have hne : ls ++ more ≠ [] := List.append_ne_nil_of_right_ne_nil ls h
    rw [List.cons_append, joinLines_cons hne, ih, unlines_cons, List.append_assoc,
      List.cons_append]

theorem joinLines_suffix (ls more : List (List Char)) :
    joinLines more <:+ joinLines (ls ++ more) := by
  by_cases h : more = []
  · rw [h]
    exact List.nil_suffix
  · rw [joinLines_append h]
    exact List.suffix_append _ _

theorem unlines_eq_joinLines {ls : List (List Char)} (h : ls ≠ []) :
    unlines ls = joinLines ls ++ ['\n'] := by
  obtain ⟨kept, last, rfl⟩ := (List.eq_nil_or_concat' ls).resolve_left h
  rw [joinLines_append (List.cons_ne_nil last []), unlines_append, List.append_assoc, unlines_cons]
  rfl

theorem count_unlines {ls : List (List Char)} (h : ∀ l ∈ ls, '\n' ∉ l) :
    (unlines ls).count '\n' = ls.length := by
  induction ls with
  | nil => rfl
  | cons l ls ih =>
    obtain ⟨hl, hls⟩ := List.forall_mem_cons.mp h
    rw [unlines_cons, List.count_append, List.count_cons_self, List.count_eq_zero_of_not_mem hl,
      ih hls, List.length_cons, Nat.zero_add]

theorem count_joinLines {ls : List (List Char)} (hne : ls ≠ []) (h : ∀ l ∈ ls, '\n' ∉ l) :
    (joinLines ls).count '\n' + 1 = ls.length := by
  rw [← count_unlines h, unlines_eq_joinLines hne, List.count_append, List.count_singleton_self]

theorem takeLine_append_of_notMem {l : List Char} (hl : '\n' ∉ l) (s : List Char) :
    (takeLine (l ++ s)).2 = (takeLine s).2 := by
  induction l with
  | nil => rfl
  | cons c l ih =>
    rw [List.mem_cons, not_or] at hl
    rw [List.cons_append, takeLine, if_neg (Ne.symm hl.1)]
    exact ih hl.2

theorem takeLine_joinLines {l : List Char} (hl : '\n' ∉ l) (ls : List (List Char)) :
    (takeLine (joinLines (l :: ls))).2 = joinLines ls := by
  cases ls with
  | nil =>
    have htake := takeLine_append_of_notMem hl []
    rwa [List.append_nil] at htake
  | cons k ls => exact takeLine_append_of_notMem hl ('\n' :: joinLines (k :: ls))

/-- A text is some lines and what stands on the last one. -/
theorem exists_unlines (s : List Char) : ∃ ls last, s = unlines ls ++ last ∧
    (∀ l ∈ ls, '\n' ∉ l) ∧ '\n' ∉ last ∧ ls.length = s.count '\n' := by
  obtain ⟨ls, last, hlines⟩ := (List.eq_nil_or_concat' (lines s)).resolve_left (lines_ne_nil s)
  have hnewline := newline_notMem_lines s
  rw [hlines] at hnewline
  obtain ⟨hls, hlast⟩ := List.forall_mem_append.mp hnewline
  have hlast := hlast last List.mem_cons_self
  have hs := joinLines_lines s
  rw [hlines, joinLines_append (List.cons_ne_nil last [])] at hs
  refine ⟨ls, last, hs.symm, hls, hlast, ?_⟩
  rw [← hs, List.count_append, count_unlines hls]
  exact (List.count_eq_zero_of_not_mem hlast).symm ▸ rfl

/-- The first line of a text ends before the first newline. -/
theorem exists_lines_cons (s : List Char) : ∃ more, lines s = s.takeWhile (· ≠ '\n') :: more := by
  induction s with
  | nil => exact ⟨[], rfl⟩
  | cons c s ih =>
    obtain ⟨more, hmore⟩ := ih
    rw [lines, hmore, List.takeWhile_cons]
    by_cases hc : c = '\n'
    · rw [if_pos hc, if_neg (by simp [hc])]
      exact ⟨_, rfl⟩
    · rw [if_neg hc, if_pos (decide_eq_true hc)]
      exact ⟨more, rfl⟩

theorem lines_prepend (hl : '\n' ∉ l) (hs : lines s = k :: more) :
    lines (l ++ s) = (l ++ k) :: more := by
  induction l with
  | nil => exact hs
  | cons c l ih =>
    rw [List.mem_cons, not_or] at hl
    rw [List.cons_append, lines, if_neg (Ne.symm hl.1), ih hl.2]
    rfl

theorem takeWhile_joinLines {l : List Char} (hl : '\n' ∉ l) (ls : List (List Char)) :
    (joinLines (l :: ls)).takeWhile (· ≠ '\n') = l := by
  have hall : ∀ c ∈ l, decide (c ≠ '\n') = true := fun c hc =>
    decide_eq_true fun heq => hl (heq ▸ hc)
  cases ls with
  | nil => exact List.takeWhile_eq_self_iff.mpr hall
  | cons k ls =>
    rw [joinLines_cons (List.cons_ne_nil k ls), List.takeWhile_append_of_pos hall,
      List.takeWhile_cons_of_neg (by simp), List.append_nil]

end Synopsis.Text
