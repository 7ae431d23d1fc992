import Synopsis.Text.Blank
import Synopsis.Text.Cut

/-!
# Lexemes of a usage line

Brackets, bars and ellipses are lexemes of their own wherever they stand. Apart from them a line is
cut at its blanks, except that a lexeme with an opening angle bracket runs on to the closing one,
over blanks if need be. `Lexeme.splitLine` gives each lexeme with the column where it stands.
-/

namespace Synopsis

/-- A lexeme and its place in the help text: lines count from one, columns from zero. -/
structure Lexeme where
  text : String
  line : Nat
  column : Nat
  deriving DecidableEq

namespace Lexeme

/-- The characters that are lexemes of their own. -/
def isDelimiter (c : Char) : Bool :=
  c == '[' || c == ']' || c == '(' || c == ')' || c == '|'

/-- The line with a space on either side of each bracket, bar and ellipsis. -/
def spread : List Char → List Char
  | [] => []
  | '.' :: '.' :: '.' :: r => ' ' :: '.' :: '.' :: '.' :: ' ' :: spread r
  | c :: r => if isDelimiter c then ' ' :: c :: ' ' :: spread r else c :: spread r

/-- The text up to the first closing angle bracket of the line, and what follows it. -/
def throughAngle? : List Char → Option (List Char × List Char)
  | [] => none
  | c :: r =>
    if c = '\n' then none
    else if c = '>' then some ([c], r)
    else (throughAngle? r).map fun (inside, rest) => (c :: inside, rest)

/-- The text up to the angle bracket that closes the last one opened before the next blank, and
what follows it. An opening bracket that is never closed does not count. -/
def angled? : List Char → Option (List Char × List Char)
  | [] => none
  | c :: r =>
    if Text.isBlank c then none
    else
      match angled? r with
      | some (inside, rest) => some (c :: inside, rest)
      | none =>
        if c = '<' then (throughAngle? r).map fun (inside, rest) => (c :: inside, rest) else none

/-- The text up to the next blank, and what follows. -/
def word (s : List Char) : List Char × List Char :=
  (s.takeWhile (!Text.isBlank ·), s.dropWhile (!Text.isBlank ·))

/-- The lexeme that a text starts with, and what follows it. -/
def next (s : List Char) : List Char × List Char :=
  (angled? s).getD (word s)

theorem throughAngle?_append {s inside rest : List Char}
    (h : throughAngle? s = some (inside, rest)) : s = inside ++ rest := by
  induction s generalizing inside with
  | nil => simp [throughAngle?] at h
  | cons c r ih =>
    simp only [throughAngle?, Option.ite_none_left_eq_some] at h
    obtain ⟨_, h⟩ := h
    by_cases hc : c = '>'
    · simp only [hc, if_true, Option.some.injEq, Prod.mk.injEq] at h
      simp [hc, ← h.1, h.2]
    · simp only [hc, if_false, Option.map_eq_some_iff, Prod.exists, Prod.mk.injEq] at h
      obtain ⟨i, t, ht, rfl, rfl⟩ := h
      simp [ih ht]

theorem angled?_append {s inside rest : List Char} (h : angled? s = some (inside, rest)) :
    s = inside ++ rest := by
  induction s generalizing inside with
  | nil => simp [angled?] at h
  | cons c r ih =>
    by_cases hb : Text.isBlank c
    · simp [angled?, hb] at h
    · cases hr : angled? r with
      | some p =>
        obtain ⟨i, t⟩ := p
        simp only [angled?, hb, hr, Bool.false_eq_true, if_false, Option.some.injEq,
          Prod.mk.injEq] at h
        obtain ⟨rfl, rfl⟩ := h
        simp [ih hr]
      | none =>
        simp only [angled?, hb, hr, Bool.false_eq_true, if_false,
          Option.ite_none_right_eq_some, Option.map_eq_some_iff, Prod.exists,
          Prod.mk.injEq] at h
        obtain ⟨_, i, t, ht, rfl, rfl⟩ := h
        simp [throughAngle?_append ht]

theorem angled?_ne_nil {s inside rest : List Char} (h : angled? s = some (inside, rest)) :
    inside ≠ [] := by
  cases s with
  | nil => simp [angled?] at h
  | cons c r =>
    rintro rfl
    by_cases hb : Text.isBlank c
    · simp [angled?, hb] at h
    · cases hr : angled? r <;> simp [angled?, hb, hr] at h

/-- A lexeme and the rest make up the text. -/
theorem next_append (s : List Char) : (next s).1 ++ (next s).2 = s := by
  cases h : angled? s with
  | some p =>
    obtain ⟨inside, rest⟩ := p
    simp [next, h, ← angled?_append h]
  | none => simp [next, h, word, List.takeWhile_append_dropWhile]

/-- A text that starts with no blank starts with a lexeme. -/
theorem next_ne_nil {c : Char} {r : List Char} (hc : Text.isBlank c = false) :
    (next (c :: r)).1 ≠ [] := by
  cases h : angled? (c :: r) with
  | some p => simpa [next, h] using angled?_ne_nil h
  | none => simp [next, h, word, hc]

theorem next_shorter {c : Char} {r : List Char} (hc : Text.isBlank c = false) :
    (next (c :: r)).2.length < (c :: r).length := by
  have happ := congrArg List.length (next_append (c :: r))
  have hpos := List.length_pos_iff.mpr (next_ne_nil (r := r) hc)
  simp only [List.length_append] at happ
  omega

/-- The lexemes of a text that is spread already. -/
def pieces (s : List Char) : List (List Char) :=
  match s with
  | [] => []
  | c :: r =>
    if hc : Text.isBlank c then pieces r
    else
      have := next_shorter (r := r) (Bool.eq_false_iff.mpr hc)
      (next (c :: r)).1 :: pieces (next (c :: r)).2
termination_by s.length
decreasing_by
  · exact Nat.lt_succ_self _
  · assumption

/-- The column of each piece: where it stands next in the line, or the end of the piece before if
it was spread and no longer stands there as it is. -/
def place (line : List Char) : Nat → List (List Char) → List (List Char × Nat)
  | _, [] => []
  | offset, piece :: rest =>
    let column :=
      match Text.offset? piece (line.drop offset) with
      | some n => offset + n
      | none => offset
    (piece, column) :: place line (column + piece.length) rest

/-- The lexemes of a line and their columns. -/
def splitLine (line : List Char) : List (List Char × Nat) :=
  place line 0 (pieces (spread line))

end Lexeme

end Synopsis
