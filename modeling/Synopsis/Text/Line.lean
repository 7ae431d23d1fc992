/-!
# Lines

A text has one line more than it has newlines. `lines` gives them without their newlines, and
`takeLine` splits off the first one together with its newline.
-/

namespace Synopsis.Text

/-- The lines of a text, without their newlines. -/
def lines : List Char → List (List Char)
  | [] => [[]]
  | c :: r =>
    if c = '\n' then [] :: lines r
    else
      match lines r with
      | [] => [[c]]
      | l :: ls => (c :: l) :: ls

/-- The lines put together again. -/
def joinLines : List (List Char) → List Char
  | [] => []
  | [l] => l
  | l :: ls => l ++ '\n' :: joinLines ls

/-- The first line with its newline, and what follows it. -/
def takeLine : List Char → List Char × List Char
  | [] => ([], [])
  | c :: r =>
    if c = '\n' then ([c], r)
    else
      let (line, rest) := takeLine r
      (c :: line, rest)

theorem lines_ne_nil (s : List Char) : lines s ≠ [] := by
  induction s with
  | nil => simp [lines]
  | cons c r ih =>
    by_cases hc : c = '\n'
    · simp [lines, hc]
    · cases hr : lines r <;> simp [lines, hc, hr]

theorem joinLines_cons {l : List Char} {ls : List (List Char)} (h : ls ≠ []) :
    joinLines (l :: ls) = l ++ '\n' :: joinLines ls := by
  cases ls with
  | nil => exact absurd rfl h
  | cons => rfl

theorem joinLines_lines (s : List Char) : joinLines (lines s) = s := by
  induction s with
  | nil => rfl
  | cons c r ih =>
    by_cases hc : c = '\n'
    · simp [lines, hc, joinLines_cons (lines_ne_nil r), ih]
    · cases hr : lines r with
      | nil => exact absurd hr (lines_ne_nil r)
      | cons l ls =>
        rw [hr] at ih
        cases ls with
        | nil => simpa [lines, hc, hr, joinLines] using ih
        | cons => simpa [lines, hc, hr, joinLines] using ih

theorem takeLine_append (s : List Char) : (takeLine s).1 ++ (takeLine s).2 = s := by
  induction s with
  | nil => rfl
  | cons c r ih => by_cases hc : c = '\n' <;> simp [takeLine, hc, ih]

theorem takeLine_ne_nil {s : List Char} (h : s ≠ []) : (takeLine s).1 ≠ [] := by
  cases s with
  | nil => exact absurd rfl h
  | cons c r => by_cases hc : c = '\n' <;> simp [takeLine, hc]

/-- Splitting off a line leaves less. -/
theorem takeLine_shorter {s : List Char} (h : s ≠ []) : (takeLine s).2.length < s.length := by
  have happ := congrArg List.length (takeLine_append s)
  have hpos := List.length_pos_iff.mpr (takeLine_ne_nil h)
  simp only [List.length_append] at happ
  omega

end Synopsis.Text
