import Synopsis.Proofs.Success
import Synopsis.Usage

/-!
# The lines of a usage section

The lexemes after the program, cut at every further occurrence of it, are the usage lines that a
section shows: one for each occurrence of the program, with nothing in it where the program stands
alone. A section is read into exactly these lines unless the program stands alone on the first one
and more lines follow; that first line is then missing.
-/

namespace Synopsis.Usage

def isProgram (program : String) (lex : Lexeme) : Bool :=
  lex.text == program

/-- **The lines are all that the section shows**: the pieces between the occurrences of the program,
one for each occurrence, which with the program before each of them spell the section out. -/
structure ShowsAll (program : Lexeme) (rest : List Lexeme) (lines : List (List Lexeme)) : Prop where
  pieces : lines = rest.splitOnP (isProgram program.text)
  count : lines.length = (program :: rest).countP (isProgram program.text)
  spelled : (lines.flatMap fun line => program.text :: line.map Lexeme.text) =
    (program :: rest).map Lexeme.text

theorem length_pieces (program : String) (rest : List Lexeme) :
    (rest.splitOnP (isProgram program)).length = rest.countP (isProgram program) + 1 := by
  induction rest with
  | nil => rfl
  | cons lex rest ih =>
    rw [List.splitOnP_cons_eq_if_modifyHead, List.countP_cons]
    by_cases hl : isProgram program lex = true
    · simp only [if_pos hl, List.length_cons, ih]
    · simp only [if_neg hl, List.length_modifyHead, ih, Nat.add_zero]

theorem spell_pieces (program : String) (rest : List Lexeme) :
    ((rest.splitOnP (isProgram program)).flatMap fun line => program :: line.map Lexeme.text) =
      program :: rest.map Lexeme.text := by
  induction rest with
  | nil => rfl
  | cons lex rest ih =>
    rw [List.splitOnP_cons_eq_if_modifyHead]
    by_cases hl : isProgram program lex = true
    · have htext : lex.text = program := beq_iff_eq.mp hl
      rw [if_pos hl, List.flatMap_cons, ih, List.map_cons, htext]
      rfl
    · -- the lexeme goes in front of the first piece, behind the program that opens it
      rw [if_neg hl]
      obtain ⟨first, more, hp⟩ := List.exists_cons_of_ne_nil
        (List.splitOnP_ne_nil (isProgram program) rest)
      rw [hp, List.flatMap_cons, List.cons_append, List.cons.injEq] at ih
      rw [hp, List.modifyHead_cons, List.flatMap_cons, List.map_cons, List.map_cons, ← ih.2]
      rfl

theorem showsAll_pieces (program : Lexeme) (rest : List Lexeme) :
    ShowsAll program rest (rest.splitOnP (isProgram program.text)) := by
  refine ⟨rfl, ?_, spell_pieces program.text rest⟩
  have hself : isProgram program.text program = true := beq_self_eq_true program.text
  rw [length_pieces, List.countP_cons, if_pos hself]

theorem go_cons (program : String) (lex : Lexeme) (rest : List Lexeme) :
    cutLines.go program (lex :: rest) =
      if lex.text = program then
        ([], (cutLines.go program rest).1 :: (cutLines.go program rest).2)
      else (lex :: (cutLines.go program rest).1, (cutLines.go program rest).2) := rfl

/-- What stands before the first occurrence of the program and what each occurrence starts are the
pieces between the occurrences. -/
theorem pieces_eq_go (program : String) (rest : List Lexeme) :
    rest.splitOnP (isProgram program) =
      (cutLines.go program rest).1 :: (cutLines.go program rest).2 := by
  induction rest with
  | nil => rfl
  | cons lex rest ih =>
    rw [List.splitOnP_cons_eq_if_modifyHead, ih, go_cons]
    by_cases hl : lex.text = program
    · have hp : isProgram program lex = true := beq_iff_eq.mpr hl
      rw [if_pos hp, if_pos hl]
    · have hp : ¬ isProgram program lex = true := fun h => hl (beq_iff_eq.mp h)
      rw [if_neg hp, if_neg hl, List.modifyHead_cons]

theorem cutLines_of_program {program : String} {rest : List Lexeme}
    (h : rest.head?.map Lexeme.text = some program) :
    [] :: cutLines program rest = rest.splitOnP (isProgram program) := by
  cases rest with
  | nil => simp at h
  | cons lex rest =>
    have hl : lex.text = program := by simpa using h
    rw [pieces_eq_go, cutLines, go_cons, if_pos hl]

theorem cutLines_of_other {program : String} {rest : List Lexeme}
    (h : rest.head?.map Lexeme.text ≠ some program) :
    cutLines program rest = rest.splitOnP (isProgram program) := by
  cases rest with
  | nil => rfl
  | cons lex rest =>
    have hl : ¬ lex.text = program := by simpa using h
    rw [pieces_eq_go, cutLines, go_cons, if_neg hl]

theorem showsAll_cutLines {program : Lexeme} {rest : List Lexeme} :
    ShowsAll program rest (cutLines program.text rest) ↔
      rest.head?.map Lexeme.text ≠ some program.text := by
  constructor
  · intro hall hnext
    have hlen := congrArg List.length (cutLines_of_program hnext)
    rw [← hall.pieces, List.length_cons] at hlen
    omega
  · intro hnext
    rw [cutLines_of_other hnext]
    exact showsAll_pieces program rest

theorem read_eq_ok {source : String} {u : Usage} (h : read source = .ok u) :
    find source = .ok u.body ∧ ∃ rest,
      sectionLexemes source u.body = .ok (u.program :: rest) ∧
      u.lines = cutLines u.program.text rest := by
  obtain ⟨found, hfind, h⟩ := bind_eq_ok.mp h
  obtain ⟨lexemes, hlexemes, h⟩ := bind_eq_ok.mp h
  cases lexemes with
  | nil => exact nomatch h
  | cons program rest =>
    obtain ⟨_, -, h⟩ := bind_eq_ok.mp h
    obtain rfl := pure_eq_ok.mp h
    exact ⟨hfind, rest, hlexemes, rfl⟩

/-- **A usage section is read into all its lines exactly if the program is not followed by itself.**
Otherwise the lines are the pieces between the occurrences of the program without the first one,
which is empty. -/
theorem lines_of_read {source : String} {u : Usage} (h : read source = .ok u) :
    find source = .ok u.body ∧ ∃ rest,
      sectionLexemes source u.body = .ok (u.program :: rest) ∧
      (ShowsAll u.program rest u.lines ↔ rest.head?.map Lexeme.text ≠ some u.program.text) ∧
      (rest.head?.map Lexeme.text = some u.program.text →
        [] :: u.lines = rest.splitOnP (isProgram u.program.text)) := by
  obtain ⟨hfind, rest, hlexemes, hlines⟩ := read_eq_ok h
  refine ⟨hfind, rest, hlexemes, ?_, ?_⟩
  · rw [hlines]
    exact showsAll_cutLines
  · intro hnext
    rw [hlines]
    exact cutLines_of_program hnext

/-- A section whose last line is the program alone shows that line too. -/
theorem lines_of_read_bare_last :
    ∃ u rest, read "Usage: p a\n       p" = .ok u ∧
      sectionLexemes "Usage: p a\n       p" u.body = .ok (u.program :: rest) ∧
      ShowsAll u.program rest u.lines := by
  have hread : read "Usage: p a\n       p" = .ok
      ⟨⟨"Usage: p a\n       p", 1, 19⟩, ⟨"p", 1, 7⟩, [[⟨"a", 1, 9⟩], []]⟩ := by decide +kernel
  have hlex : sectionLexemes "Usage: p a\n       p" ⟨"Usage: p a\n       p", 1, 19⟩ =
      .ok [⟨"p", 1, 7⟩, ⟨"a", 1, 9⟩, ⟨"p", 2, 7⟩] := by decide +kernel
  obtain ⟨-, rest, hrest, hall, -⟩ := lines_of_read hread
  have heq : rest = [⟨"a", 1, 9⟩, ⟨"p", 2, 7⟩] := by
    rw [hlex, Except.ok.injEq, List.cons.injEq] at hrest
    exact hrest.2.symm
  exact ⟨_, rest, hread, hrest, hall.mpr (by rw [heq]; decide)⟩

/-- The program alone on the first of two lines: the section shows two lines and one is read. -/
theorem bare_first_line_missing :
    ∃ u rest, read "Usage: p\n       p a" = .ok u ∧
      sectionLexemes "Usage: p\n       p a" u.body = .ok (u.program :: rest) ∧
      (u.program :: rest).map Lexeme.text = ["p", "p", "a"] ∧
      u.lines.map (List.map Lexeme.text) = [["a"]] ∧
      (u.program :: rest).countP (isProgram u.program.text) = 2 ∧
      ¬ ShowsAll u.program rest u.lines := by
  have hread : read "Usage: p\n       p a" = .ok
      ⟨⟨"Usage: p\n       p a", 1, 19⟩, ⟨"p", 1, 7⟩, [[⟨"a", 2, 9⟩]]⟩ := by decide +kernel
  have hlex : sectionLexemes "Usage: p\n       p a" ⟨"Usage: p\n       p a", 1, 19⟩ =
      .ok [⟨"p", 1, 7⟩, ⟨"p", 2, 7⟩, ⟨"a", 2, 9⟩] := by decide +kernel
  refine ⟨_, _, hread, hlex, by decide, by decide, by decide, ?_⟩
  intro hall
  exact absurd hall.count (by decide)

end Synopsis.Usage
