import Synopsis.Proofs.LexemePlaces
import Synopsis.Proofs.UsageLines

/-!
# Where the lexemes of a usage section stand

The lexemes of a usage section stand on its lines as they are in the help text, on the heading line
behind the label. How long the label and all before it are is counted on the heading line in lower
case, where a dotted capital I takes two characters, so for each of these before the label one more
character behind the label is left out.
-/

namespace Synopsis

theorem Section.line_le_of_mem_scan {name s : List Char} {line offset : Nat} {found : Section}
    (h : found ∈ scan name line offset s) : line ≤ found.line := by
  fun_induction Section.scan name line offset s with
  | case1 =>
    obtain rfl := List.mem_singleton.mp h
    exact Nat.le_refl _
  | case2 | case5 => exact nomatch h
  | case3 =>
    obtain rfl := List.mem_singleton.mp h
    exact Nat.le_refl _
  | case4 _ _ _ _ _ _ _ _ _ _ ih =>
    rcases List.mem_cons.mp h with rfl | h
    · exact Nat.le_refl _
    · exact Nat.le_trans (Nat.le_add_right _ _) (ih h)
  | case6 _ _ _ _ _ _ _ _ _ ih => exact Nat.le_of_succ_le (ih h)

namespace Usage

open Lexeme (splitLine Covers HasWholePieces)

variable {source : String} {all : List Lexeme} {texts : List (List Char)} {first number : Nat}

/-- The line of the help text with the given number, counted from one. -/
def physicalLine? (source : String) (number : Nat) : Option (List Char) :=
  (Text.lines source.toList)[number - 1]?

/-- The texts and columns of the lexemes on a line. -/
def onLine (lexemes : List Lexeme) (number : Nat) : List (List Char × Nat) :=
  (lexemes.filter (·.line == number)).map fun lex => (lex.text.toList, lex.column)

theorem mem_onLine {lex : Lexeme} (h : lex ∈ all) :
    (lex.text.toList, lex.column) ∈ onLine all lex.line :=
  List.mem_map_of_mem (List.mem_filter.mpr ⟨h, beq_self_eq_true _⟩)

theorem onLine_append (before after : List Lexeme) :
    onLine (before ++ after) number = onLine before number ++ onLine after number := by
  rw [onLine, List.filter_append, List.map_append, onLine, onLine]

theorem onLine_map (placed : List (List Char × Nat)) (line : Nat) :
    onLine (placed.map fun x => ⟨String.ofList x.1, line, x.2⟩) number =
      if line = number then placed else [] := by
  by_cases hline : line = number
  · rw [if_pos hline, onLine, List.filter_eq_self.mpr, List.map_map]
    · exact (List.map_congr_left fun x _ => by simp).trans (List.map_id placed)
    · intro lex hlex
      obtain ⟨x, -, rfl⟩ := List.mem_map.mp hlex
      exact beq_iff_eq.mpr hline
  · rw [if_neg hline, onLine, List.filter_eq_nil_iff.mpr, List.map_nil]
    intro lex hlex
    obtain ⟨x, -, rfl⟩ := List.mem_map.mp hlex
    exact fun heq => hline (beq_iff_eq.mp heq)

/-- The lexemes on a line are those that it is split into. -/
theorem onLine_lexemes : onLine (lexemes first texts) number =
    if first ≤ number then (texts[number - first]?).elim [] splitLine else [] := by
  induction texts generalizing first with
  | nil => rw [List.getElem?_nil, Option.elim_none, ite_self]; rfl
  | cons text texts ih =>
    rw [lexemes, onLine_append, onLine_map, ih]
    rcases Nat.lt_trichotomy first number with hlt | rfl | hgt
    · obtain ⟨later, hlater⟩ : ∃ later, number - first = later + 1 := ⟨number - first - 1, by omega⟩
      have hrest : number - (first + 1) = later := by omega
      rw [if_neg (Nat.ne_of_lt hlt), if_pos (Nat.succ_le_of_lt hlt), if_pos (Nat.le_of_lt hlt),
        hrest, hlater, List.nil_append, List.getElem?_cons_succ]
    · rw [if_pos rfl, if_neg (Nat.not_succ_le_self first), if_pos (Nat.le_refl first), Nat.sub_self,
        List.append_nil, List.getElem?_cons_zero]
      rfl
    · rw [if_neg (Nat.ne_of_gt hgt), if_neg (by omega), if_neg (by omega)]
      rfl

theorem line_of_mem_lexemes {lex : Lexeme} (h : lex ∈ lexemes first texts) :
    ∃ i text, texts[i]? = some text ∧ lex.line = first + i := by
  induction texts generalizing first with
  | nil => exact nomatch h
  | cons text texts ih =>
    rcases List.mem_append.mp h with h | h
    · obtain ⟨_, -, rfl⟩ := List.mem_map.mp h
      exact ⟨0, text, rfl, rfl⟩
    · obtain ⟨i, later, hi, hline⟩ := ih h
      exact ⟨i + 1, later, hi, by omega⟩

theorem go_sublist (program : String) (rest : List Lexeme) :
    ((cutLines.go program rest).1 ++ (cutLines.go program rest).2.flatten).Sublist rest := by
  induction rest with
  | nil => exact .slnil
  | cons lex rest ih =>
    rw [go_cons]
    by_cases hl : lex.text = program
    · rw [if_pos hl]
      exact ih.cons lex
    · rw [if_neg hl]
      exact ih.cons_cons lex

theorem cutLines_sublist (program : String) (rest : List Lexeme) :
    (cutLines program rest).flatten.Sublist rest := by
  have hgo := go_sublist program rest
  unfold cutLines
  split
  next h => exact List.nil_sublist rest
  next line lines h =>
    rw [h] at hgo
    exact hgo
  next first lines _ _ h =>
    rw [h] at hgo
    exact hgo

theorem lowered_of_ne {c : Char} (h : c ≠ '\u0130') : lowered c = [c.toLower] :=
  if_neg h

/-- A word without the letter i is spelled by as many characters of the heading. -/
theorem exists_word {word after heading : List Char} (hi : 'i' ∉ word)
    (h : heading.flatMap lowered = word ++ after) :
    ∃ own later, heading = own ++ later ∧ own.map Char.toLower = word := by
  induction word generalizing heading with
  | nil => exact ⟨[], heading, rfl, rfl⟩
  | cons d word ih =>
    rw [List.mem_cons, not_or] at hi
    cases heading with
    | nil => exact nomatch h
    | cons c heading =>
      rw [List.flatMap_cons] at h
      by_cases hc : c = '\u0130'
      · rw [hc] at h
        exact absurd (List.cons.inj h).1 hi.1
      · rw [lowered_of_ne hc, List.singleton_append, List.cons_append, List.cons.injEq] at h
        obtain ⟨own, later, rfl, rfl⟩ := ih hi.2 h.2
        exact ⟨c :: own, later, rfl, by rw [List.map_cons, h.1]⟩

/-- What stands before a word takes one character more for each dotted capital I. -/
theorem exists_before {d : Char} {before word after heading : List Char} (hd : d ≠ '\u0307')
    (h : heading.flatMap lowered = before ++ (d :: word ++ after)) :
    ∃ own later, heading = own ++ later ∧ before.length = own.length + own.count '\u0130' ∧
      later.flatMap lowered = d :: word ++ after := by
  induction heading generalizing before with
  | nil => simp at h
  | cons c heading ih =>
    cases before with
    | nil => exact ⟨[], c :: heading, rfl, rfl, h⟩
    | cons e before =>
      rw [List.flatMap_cons] at h
      by_cases hc : c = '\u0130'
      · subst hc
        cases before with
        | nil => exact absurd (List.cons.inj (List.cons.inj h).2).1.symm hd
        | cons f before =>
          obtain ⟨own, later, rfl, hlength, hlater⟩ := ih (List.cons.inj (List.cons.inj h).2).2
          refine ⟨'\u0130' :: own, later, rfl, ?_, hlater⟩
          rw [List.count_cons_self, List.length_cons, List.length_cons, List.length_cons]
          omega
      · rw [lowered_of_ne hc, List.singleton_append, List.cons_append, List.cons.injEq] at h
        obtain ⟨own, later, rfl, hlength, hlater⟩ := ih h.2
        refine ⟨c :: own, later, rfl, ?_, hlater⟩
        rw [List.count_cons_of_ne hc, List.length_cons, List.length_cons]
        omega

theorem labelEnd?_eq_some {heading : List Char} {stop : Nat} (h : labelEnd? heading = some stop) :
    ∃ before word after, heading = before ++ word ++ after ∧
      word.map Char.toLower = label.toList ∧
      stop = (before ++ word).length + before.count '\u0130' := by
  obtain ⟨offset, hoffset, rfl⟩ := Option.map_eq_some_iff.mp h
  obtain ⟨⟨lead, tail⟩, hcut, rfl⟩ := Option.map_eq_some_iff.mp hoffset
  have hlabel : label.toList = 'u' :: ['s', 'a', 'g', 'e', ':'] := by decide
  have hsplit := Text.cut?_append hcut
  rw [hlabel, List.append_assoc] at hsplit
  obtain ⟨before, later, rfl, hlength, hlater⟩ := exists_before (by decide) hsplit
  obtain ⟨word, after, rfl, hword⟩ := exists_word (by decide) hlater
  have hwordlength := congrArg List.length hword
  refine ⟨before, word, after, (List.append_assoc ..).symm, hword.trans hlabel.symm, ?_⟩
  rw [List.length_map] at hwordlength
  have hsix : label.length = 6 := by decide
  simp only [List.length_append, List.length_cons, List.length_nil] at hwordlength ⊢
  omega

theorem find_line_pos {found : Section} (h : find source = .ok found) : 0 < found.line := by
  have hmem : found ∈ Section.findAll label source := by
    unfold find at h
    split at h
    next => exact nomatch h
    next only hfound =>
      obtain rfl := Except.ok.inj h
      rw [hfound]
      exact List.mem_singleton_self only
    next => exact nomatch h
  exact Section.line_le_of_mem_scan hmem

/-- The heading line with the label and all before it blanked out. -/
def blanked (heading : List Char) (stop : Nat) : List Char :=
  List.replicate stop ' ' ++ heading.drop stop

/-- The lines that a section is cut from are lines of the help text, the first one blanked out. -/
theorem sectionLexemes_eq_ok {found : Section} {program : Lexeme} {rest : List Lexeme}
    (hpos : 0 < found.line) (h : sectionLexemes source found = .ok (program :: rest)) :
    ∃ heading stop more, physicalLine? source found.line = some heading ∧
      labelEnd? heading = some stop ∧
      program :: rest = lexemes found.line (blanked heading stop :: more) ∧
      ∀ i text, more[i]? = some text → physicalLine? source (found.line + (i + 1)) = some text := by
  unfold sectionLexemes at h
  generalize found.text.toList.count '\n' + 1 = size at h
  dsimp only at h
  split at h
  next => exact nomatch h
  next heading more hlines =>
    split at h
    next => exact nomatch h
    next start hstart =>
      obtain ⟨stop, hstop, rfl⟩ := Option.map_eq_some_iff.mp hstart
      have hline : ∀ i text, (heading :: more)[i]? = some text →
          physicalLine? source (found.line + i) = some text := by
        intro i text hi
        have hindex : found.line + i - 1 = found.line - 1 + i := by omega
        rw [← hlines, List.getElem?_take] at hi
        split at hi
        next =>
          rwa [List.getElem?_drop, ← hindex] at hi
        next => exact nomatch hi
      exact ⟨heading, stop, more, hline 0 heading rfl, hstop, (Except.ok.inj h).symm,
        fun i text hi => hline (i + 1) text hi⟩

/-- **Where the lexemes of the section stand**: each one is a slice of the line of the help text
with its number, at its column, and behind the label they cover the heading line. Lines of which
some angle brackets hold a bracket, a bar or an ellipsis are left out. -/
structure StandOn (source : String) (all : List Lexeme) (head stop : Nat) : Prop where
  slices : ∀ lex ∈ all, 0 < lex.line ∧ ∃ line, physicalLine? source lex.line = some line ∧
    (HasWholePieces (line.drop (if lex.line = head then stop else 0)) →
      (line.drop lex.column).take lex.text.toList.length = lex.text.toList)
  heading : ∃ line, physicalLine? source head = some line ∧
    (HasWholePieces (line.drop stop) → Covers line stop (onLine all head))

theorem read_standOn {u : Usage} (h : read source = .ok u) :
    ∃ rest heading stop, sectionLexemes source u.body = .ok (u.program :: rest) ∧
      u.lines.flatten.Sublist rest ∧ physicalLine? source u.body.line = some heading ∧
      labelEnd? heading = some stop ∧ StandOn source (u.program :: rest) u.body.line stop := by
  obtain ⟨hfind, rest, hlexemes, hlines⟩ := read_eq_ok h
  have hpos := find_line_pos hfind
  obtain ⟨heading, stop, more, hheading, hstop, hall, hmore⟩ := sectionLexemes_eq_ok hpos hlexemes
  have honLine : ∀ i text, (blanked heading stop :: more)[i]? = some text →
      onLine (u.program :: rest) (u.body.line + i) = splitLine text := by
    intro i text hi
    rw [hall, onLine_lexemes, if_pos (Nat.le_add_right _ _), Nat.add_sub_cancel_left, hi]
    rfl
  have hcovers : HasWholePieces (heading.drop stop) →
      Covers heading stop (onLine (u.program :: rest) u.body.line) := by
    intro hwhole
    have hsplit := honLine 0 _ rfl
    rw [Nat.add_zero] at hsplit
    rw [hsplit]
    exact Lexeme.covers_blanked hwhole
  have hsub : u.lines.flatten.Sublist rest := by
    rw [hlines]
    exact cutLines_sublist u.program.text rest
  refine ⟨rest, heading, stop, hlexemes, hsub, hheading, hstop, fun lex hlex => ?_,
    heading, hheading, hcovers⟩
  have hmem := mem_onLine hlex
  rw [hall] at hlex
  obtain ⟨i, text, hi, hline⟩ := line_of_mem_lexemes hlex
  refine ⟨by omega, ?_⟩
  cases i with
  | zero =>
    rw [Nat.add_zero] at hline
    rw [hline] at hmem
    rw [if_pos hline, hline]
    exact ⟨heading, hheading, fun hwhole => (hcovers hwhole).verbatim _ hmem⟩
  | succ i =>
    rw [hline, honLine _ _ hi] at hmem
    rw [if_neg (by omega), hline]
    refine ⟨text, hmore i text hi, fun hwhole => ?_⟩
    exact ((Lexeme.splitLine_covers_iff text).mpr hwhole).verbatim _ hmem

/-- **Lexemes are slices of the help text at their places.** Those of a line cover it exactly if no
angle brackets in it hold a bracket, a bar or an ellipsis. Under this condition the lexemes of a
usage section stand on its lines, and on the heading line nothing is missing behind the label but
one character for each dotted capital I before it. -/
theorem lexemes_are_slices (line : List Char) (source : String) :
    (Covers line 0 (splitLine line) ↔ HasWholePieces line) ∧
    ∀ u, read source = .ok u → ∃ rest before word after,
      sectionLexemes source u.body = .ok (u.program :: rest) ∧ u.lines.flatten.Sublist rest ∧
      physicalLine? source u.body.line = some (before ++ word ++ after) ∧
      word.map Char.toLower = label.toList ∧
      StandOn source (u.program :: rest) u.body.line
        ((before ++ word).length + before.count '\u0130') := by
  refine ⟨Lexeme.splitLine_covers_iff line, fun u h => ?_⟩
  obtain ⟨rest, heading, stop, hlexemes, hlines, hheading, hstop, hstand⟩ := read_standOn h
  obtain ⟨before, word, after, rfl, hword, rfl⟩ := labelEnd?_eq_some hstop
  exact ⟨rest, before, word, after, hlexemes, hlines, hheading, hword, hstand⟩

/-- A name with a space in angle brackets, and brackets on the next line. -/
theorem lexemes_are_slices_wrapped :
    Covers "p <x y>".toList 0 [(['p'], 0), ("<x y>".toList, 2)] ∧
    ∃ u rest stop, read "Usage: p <x y>\n  [-a]" = .ok u ∧
      rest.map Lexeme.text = ["<x y>", "[", "-a", "]"] ∧
      StandOn "Usage: p <x y>\n  [-a]" (u.program :: rest) 1 stop := by
  have hpieces : Lexeme.pieces (Lexeme.spread "p <x y>".toList) = [['p'], "<x y>".toList] := by
    decide +kernel
  have hsplit : splitLine "p <x y>".toList = [(['p'], 0), ("<x y>".toList, 2)] := by decide +kernel
  have hwhole : HasWholePieces "p <x y>".toList := by
    unfold HasWholePieces
    rw [hpieces]
    exact List.forall_mem_cons.mpr ⟨.inr rfl, List.forall_mem_singleton.mpr (.inr rfl)⟩
  have hread : read "Usage: p <x y>\n  [-a]" = .ok
      ⟨⟨"Usage: p <x y>\n  [-a]", 1, 21⟩, ⟨"p", 1, 7⟩,
        [[⟨"<x y>", 1, 9⟩, ⟨"[", 2, 2⟩, ⟨"-a", 2, 3⟩, ⟨"]", 2, 5⟩]]⟩ := by decide +kernel
  have hlex : sectionLexemes "Usage: p <x y>\n  [-a]" ⟨"Usage: p <x y>\n  [-a]", 1, 21⟩ =
      .ok [⟨"p", 1, 7⟩, ⟨"<x y>", 1, 9⟩, ⟨"[", 2, 2⟩, ⟨"-a", 2, 3⟩, ⟨"]", 2, 5⟩] := by
    decide +kernel
  obtain ⟨hcovers, hstands⟩ :=
    lexemes_are_slices "p <x y>".toList "Usage: p <x y>\n  [-a]"
  obtain ⟨rest, before, word, after, hrest, -, -, -, hstand⟩ := hstands _ hread
  rw [hlex, Except.ok.injEq, List.cons.injEq] at hrest
  refine ⟨hsplit ▸ hcovers.mpr hwhole, _, rest, _, hread, ?_, hstand⟩
  rw [← hrest.2]
  rfl

/-- A bar in angle brackets, and a dotted capital I before the label: the first lexeme is no slice
of its line, and the first letter of the program is missing. -/
theorem lexemes_misplaced :
    splitLine "<a|b>".toList = [("<a | b>".toList, 0)] ∧
    ¬ Covers "<a|b>".toList 0 (splitLine "<a|b>".toList) ∧
    read "\u0130usage:prog" = .ok
      ⟨⟨"\u0130usage:prog", 1, 11⟩, ⟨"rog", 1, 8⟩, [[]]⟩ ∧
    physicalLine? "\u0130usage:prog" 1 = some "\u0130usage:prog".toList ∧
    ¬ Covers "\u0130usage:prog".toList 7 (onLine [⟨"rog", 1, 8⟩] 1) := by
  have hsplit : splitLine "<a|b>".toList = [("<a | b>".toList, 0)] := by decide +kernel
  refine ⟨hsplit, ?_, by decide +kernel, by decide +kernel, ?_⟩
  · rw [hsplit]
    exact fun h => absurd (h.verbatim _ List.mem_cons_self) (by decide)
  · have hline : onLine [⟨"rog", 1, 8⟩] 1 = [("rog".toList, 8)] := by decide
    rw [hline]
    intro h
    have hblank := h.blank 7 'p' (Nat.le_refl 7) (by decide)
      (List.forall_mem_singleton.mpr (by decide))
    exact absurd hblank (by decide)

end Usage

end Synopsis
