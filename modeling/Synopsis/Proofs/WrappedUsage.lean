import Mathlib.Algebra.BigOperators.Group.List.Basic
import Synopsis.Proofs.UsageBlock

/-!
# Usage lines may be wrapped

A usage line may be broken between any two of its lexemes: with a newline and some indentation put
there, the section is read to the same program and the same lexemes on each usage line. The lexemes
on the broken line are the same before and behind the break, the block of the section has one more
line, and if the heading line is broken, the label stands before the break.
-/

namespace Synopsis

namespace Text

variable {s sep before after : List Char}

/-- A separator that is found in a text is found there if the text ends behind it. -/
theorem cut?_of_append {t : List Char} (h : cut? sep (s ++ t) = some (before, after))
    (hlength : before.length + sep.length ≤ s.length) :
    ∃ later, cut? sep s = some (before, later) := by
  induction s generalizing before with
  | nil =>
    obtain ⟨hbefore, hsep⟩ := Nat.add_eq_zero_iff.mp (Nat.le_zero.mp hlength)
    rw [List.length_eq_zero_iff] at hbefore hsep
    rw [hbefore, hsep]
    exact ⟨[], rfl⟩
  | cons c s ih =>
    rw [List.cons_append, cut?, ← List.cons_append] at h
    rw [cut?]
    split at h
    next rest hrest =>
      obtain ⟨rfl, rfl⟩ := Prod.mk.inj (Option.some.inj h)
      rw [List.length_nil, Nat.zero_add] at hlength
      obtain ⟨later, hlater⟩ := List.prefix_of_prefix_length_le
        ⟨rest, (append_of_afterStart? hrest).symm⟩ (List.prefix_append (c :: s) t) hlength
      rw [← hlater, Lexeme.afterStart?_append]
      exact ⟨later, rfl⟩
    next hnone =>
      obtain ⟨⟨lead, tail⟩, hcut, heq⟩ := Option.map_eq_some_iff.mp h
      obtain ⟨rfl, rfl⟩ := Prod.mk.inj heq
      rw [List.length_cons, List.length_cons] at hlength
      obtain ⟨later, hlater⟩ := ih hcut (by omega)
      have hstart : afterStart? sep (c :: s) = none := by
        rw [Option.eq_none_iff_forall_ne_some]
        intro rest hrest
        rw [append_of_afterStart? hrest, List.append_assoc, Lexeme.afterStart?_append] at hnone
        cases hnone
      rw [hstart, hlater]
      exact ⟨later, rfl⟩

end Text

/-- Where a line stands among the lines of the second part. -/
theorem exists_split_middle {α : Type} {xs ys zs la lb : List α} {l : α}
    (h : xs ++ (ys ++ zs) = la ++ l :: lb) (hle : xs.length ≤ la.length)
    (hlt : la.length < xs.length + ys.length) :
    ∃ s₁ s₂, la = xs ++ s₁ ∧ ys = s₁ ++ l :: s₂ ∧ lb = s₂ ++ zs := by
  obtain ⟨s₁, rfl⟩ : ∃ s₁, la = xs ++ s₁ := by
    rcases List.append_eq_append_iff.mp h with ⟨s₁, rfl, -⟩ | ⟨s₁, rfl, -⟩
    · exact ⟨s₁, rfl⟩
    · have hnil : s₁ = [] := by
        rw [List.length_append] at hle
        exact List.length_eq_zero_iff.mp (by omega)
      exact ⟨[], by rw [hnil, List.append_nil, List.append_nil]⟩
  rw [List.append_assoc, List.append_cancel_left_eq] at h
  rw [List.length_append] at hlt
  rcases List.append_eq_append_iff.mp h with ⟨t, rfl, -⟩ | ⟨t, rfl, ht⟩
  · rw [List.length_append] at hlt
    omega
  · cases t with
    | nil =>
      rw [List.append_nil] at hlt
      omega
    | cons d t =>
      rw [List.cons_append, List.cons.injEq] at ht
      obtain ⟨rfl, rfl⟩ := ht
      exact ⟨s₁, t, rfl, rfl, rfl⟩

namespace Usage

open Section (Block OnlyBlock isHeading isIndented)
open Lexeme (ink pieces spread)

variable {source : String} {above below rest : List Lexeme} {x y program : Lexeme} {b : Block}
  {before after left right blanks : List Char} {stop : Nat}

/-- **A place between two lexemes on one line**: the lexemes are neighbours in the section and stand
on the line, and behind the place the line goes on with the ink of the second one and of all that
follow it there. -/
structure Between (source : String) (above : List Lexeme) (x y : Lexeme) (below : List Lexeme)
    (before after : List Char) : Prop where
  neighbours : ∃ found, find source = .ok found ∧
    sectionLexemes source found = .ok (above ++ x :: y :: below)
  sameLine : y.line = x.line
  text : source.toList = before ++ after
  line : before.count '\n' + 1 = x.line
  behind : ink (after.takeWhile (· ≠ '\n')) = (onLine (y :: below) x.line).flatMap fun p => ink p.1

theorem ink_blanked (heading : List Char) (stop : Nat) :
    ink (blanked heading stop) = ink (heading.drop stop) := by
  have hspaces : ink (List.replicate stop ' ') = [] :=
    Lexeme.ink_eq_nil_iff.mpr fun c hc => by
      rw [List.eq_of_mem_replicate hc]
      exact Text.isBlank_space
  rw [blanked, Lexeme.ink_append, hspaces, List.nil_append]

/-- The text with a newline and blanks put in at a place. -/
def broken (before blanks after : List Char) : String :=
  String.ofList (before ++ '\n' :: (blanks ++ after))

/-- The lines of a text, and of the text with a break in it. -/
theorem exists_lines_broken (before blanks after : List Char) (hblanks : '\n' ∉ blanks) :
    ∃ la left lb, la.length = before.count '\n' ∧
      Text.lines (before ++ after) = la ++ (left ++ after.takeWhile (· ≠ '\n')) :: lb ∧
      Text.lines (before ++ '\n' :: (blanks ++ after)) =
        la ++ left :: (blanks ++ after.takeWhile (· ≠ '\n')) :: lb := by
  obtain ⟨la, left, rfl, hla, hleft, hlength⟩ := Text.exists_unlines before
  obtain ⟨lb, hlb⟩ := Text.exists_lines_cons after
  refine ⟨la, left, lb, hlength, ?_, ?_⟩
  · rw [List.append_assoc, Text.lines_unlines hla, Text.lines_prepend hleft hlb]
  · rw [List.append_assoc, Text.lines_unlines hla, Text.lines_line hleft,
      Text.lines_prepend hblanks hlb]

/-- The label stands before a place behind it. -/
theorem labelEnd?_of_append (h : labelEnd? (left ++ right) = some stop)
    (hstop : stop ≤ left.length) : labelEnd? left = some stop := by
  obtain ⟨offset, hoffset, rfl⟩ := Option.map_eq_some_iff.mp h
  obtain ⟨⟨lead, tail⟩, hcut, rfl⟩ := Option.map_eq_some_iff.mp hoffset
  have hlowered : left.length ≤ (left.flatMap lowered).length := by
    rw [List.length_flatMap, ← List.length_map (f := fun c => (lowered c).length)]
    refine List.length_le_sum_of_one_le _ fun n hn => ?_
    obtain ⟨c, -, rfl⟩ := List.mem_map.mp hn
    unfold lowered
    split
    next => decide
    next => exact Nat.le_refl 1
  have hsix : label.toList.length = label.length := rfl
  rw [List.flatMap_append] at hcut
  dsimp only at hstop
  obtain ⟨later, hlater⟩ := Text.cut?_of_append hcut (by omega)
  rw [labelEnd?, Text.offset?, hlater]
  rfl

theorem isHeading_of_labelEnd? {heading : List Char} (h : labelEnd? heading = some stop) :
    isHeading label.toList heading = true := by
  obtain ⟨lead, word, tail, rfl, hword, -⟩ := labelEnd?_eq_some h
  refine Section.isHeading_iff.mpr ⟨lead, word, tail, List.append_assoc .., ?_⟩
  rw [← hword, Text.SameLetters, List.forall₂_map_left_iff, List.forall₂_same]
  exact fun c _ => Text.sameLetter_toLower c

/-- A block with other lines, between the same ones. -/
theorem onlyBlock_replace {name : List Char} {number : Nat} {ls above more : List (List Char)}
    {heading : List Char} (h : OnlyBlock name number ls above b)
    (hheading : isHeading name heading = true) (hmore : ∀ k ∈ more, isIndented k = true) :
    OnlyBlock name number (above ++ (heading :: more ++ b.below)) above
      ⟨b.number, heading, more, b.below⟩ :=
  ⟨rfl, h.number, hheading, hmore, h.behind, h.others⟩

theorem pieces_onLine (number : Nat) {shown s₁ s₂ : List (List Char)} {l : List Char}
    (h : shown = s₁ ++ l :: s₂) :
    (onLine (lexemes number shown) (number + s₁.length)).map Prod.fst = pieces (spread l) := by
  rw [onLine_lexemes, if_pos (Nat.le_add_right _ _), Nat.add_sub_cancel_left, h,
    List.getElem?_append_right (Nat.le_refl _), Nat.sub_self]
  exact fst_place l 0 _

/-- **A line that is broken between two lexemes has the same lexemes.** -/
theorem texts_broken (number : Nat) (s₁ s₂ : List (List Char)) {first second : List (List Char)}
    (h : pieces (spread (left ++ right)) = first ++ second) (hink : ink left = first.flatMap ink)
    (hblanks : Text.AllBlank blanks) :
    (lexemes number (s₁ ++ left :: (blanks ++ right) :: s₂)).map Lexeme.text =
      (lexemes number (s₁ ++ (left ++ right) :: s₂)).map Lexeme.text := by
  obtain ⟨-, hfirst, hsecond⟩ := Lexeme.pieces_cut h hink
  rw [texts_lexemes, texts_lexemes, List.flatMap_append, List.flatMap_append, List.flatMap_cons,
    List.flatMap_cons, List.flatMap_cons, Lexeme.pieces_gap hblanks, h, hfirst, hsecond,
    List.map_append, List.append_assoc]

theorem ink_before {first second : List (List Char)}
    (h : pieces (spread (left ++ right)) = first ++ second)
    (hink : ink right = second.flatMap ink) : ink left = first.flatMap ink := by
  have hall := Lexeme.ink_pieces (spread (left ++ right))
  rw [h, Lexeme.ink_spread, Lexeme.ink_append, List.flatMap_append, hink] at hall
  exact (List.append_cancel_right hall).symm

/-- What is blanked out of the heading line is out before a place behind a lexeme. -/
theorem stop_le {first second : List (List Char)}
    (h : pieces (spread (blanked (left ++ right) stop)) = first ++ second) (hne : first ≠ [])
    (hink : ink right = second.flatMap ink) : stop ≤ left.length := by
  by_contra hlt
  have hall := Lexeme.ink_pieces (spread (blanked (left ++ right) stop))
  rw [Lexeme.ink_spread, h, ink_blanked, List.drop_append, List.drop_eq_nil_of_le (by omega),
    List.nil_append, List.flatMap_append, ← hink] at hall
  have hsub := ((List.drop_sublist (stop - left.length) right).filter (!Text.isBlank ·)).length_le
  have hlength := congrArg List.length hall
  have hnil : first.flatMap ink = [] := by
    rw [← List.length_eq_zero_iff]
    rw [List.length_append] at hlength
    unfold ink at hlength ⊢
    omega
  exact hne (Lexeme.eq_nil_of_ink h hnil)

/-- The text is read to a program of that name and to usage lines with those lexemes. -/
def ReadsAs (source : String) (program : Lexeme) (lines : List (List Lexeme)) : Prop :=
  ∃ u, read source = .ok u ∧ u.program.text = program.text ∧
    u.lines.map (List.map Lexeme.text) = lines.map (List.map Lexeme.text)

/-- The block that shows a usage may be another one, in another text, as long as the texts of the
lexemes and the lines below the block are the same. -/
theorem read_other {other : String} {b' : Block} {above' : List (List Char)} {stop' : Nat}
    (h : Shows source b stop program rest) (hb : IsBlock other above' b')
    (hlabel : labelEnd? b'.heading = some stop') (hbelow : b'.below = b.below)
    (htexts : (lexemes b'.number (blanked b'.heading stop' :: b'.more)).map Lexeme.text =
      (program :: rest).map Lexeme.text) :
    ReadsAs other program (cutLines program.text rest) := by
  cases hshown : lexemes b'.number (blanked b'.heading stop' :: b'.more) with
  | nil =>
    rw [hshown] at htexts
    exact nomatch htexts
  | cons program' rest' =>
    rw [hshown, List.map_cons, List.map_cons, List.cons.injEq] at htexts
    obtain ⟨number, halone⟩ := h.alone
    have halone' := go_eq_ok halone htexts.1 number
    rw [← hbelow] at halone'
    refine ⟨⟨b'.section other.toList.length, program', cutLines program'.text rest'⟩,
      read_eq_ok_iff.mpr ⟨b', stop', rest', ⟨⟨above', hb⟩, hlabel, hshown, number, halone'⟩, rfl⟩,
      htexts.1, ?_⟩
    dsimp only
    rw [htexts.1]
    exact texts_cutLines htexts.2

/-- The lexemes on the line of a place, those before it and those behind it. -/
theorem Between.exists_pieces (h : Between source above x y below before after) {number : Nat}
    (s₁ : List (List Char)) {shown s₂ : List (List Char)} {l : List Char}
    (hall : lexemes number shown = above ++ x :: y :: below) (hshown : shown = s₁ ++ l :: s₂)
    (hline : x.line = number + s₁.length) : ∃ first second,
      pieces (spread l) = first ++ second ∧ first ≠ [] ∧
        ink (after.takeWhile (· ≠ '\n')) = second.flatMap ink := by
  have hpieces := pieces_onLine number hshown
  rw [hall, ← hline, List.append_cons, onLine_append, List.map_append] at hpieces
  refine ⟨_, _, hpieces.symm, ?_, ?_⟩
  · have hmem : (x.text.toList, x.column) ∈ onLine (above ++ [x]) x.line := mem_onLine (by simp)
    exact fun hnil => List.ne_nil_of_mem hmem (List.map_eq_nil_iff.mp hnil)
  · rw [h.behind, List.flatMap_map]

theorem exists_split_of_mem {lex : Lexeme} {first : Nat} {texts : List (List Char)}
    (h : lex ∈ lexemes first texts) :
    ∃ s₁ text s₂, texts = s₁ ++ text :: s₂ ∧ lex.line = first + s₁.length := by
  obtain ⟨i, text, hi, hline⟩ := line_of_mem_lexemes h
  obtain ⟨hlt, rfl⟩ := List.getElem?_eq_some_iff.mp hi
  refine ⟨texts.take i, texts[i], texts.drop (i + 1), ?_, ?_⟩
  · rw [← List.drop_eq_getElem_cons hlt, List.take_append_drop]
  · rw [hline, List.length_take_of_le (Nat.le_of_lt hlt)]

/-- A line that is shown is the end of a line of the block, the part behind the label at least. -/
theorem exists_line_of_shown {s₁ s₂ : List (List Char)} {text : List Char}
    (h : blanked b.heading stop :: b.more = s₁ ++ text :: s₂) :
    ∃ s₀ lead tail, b.lines = s₀ ++ (lead ++ tail) :: s₂ ∧ s₀.length = s₁.length ∧
      ink tail = ink text := by
  cases s₁ with
  | nil =>
    obtain ⟨rfl, rfl⟩ := List.cons.inj h
    refine ⟨[], b.heading.take stop, b.heading.drop stop, ?_, rfl, ?_⟩
    · rw [List.take_append_drop]
      rfl
    · exact (ink_blanked b.heading stop).symm
  | cons _ s₁ =>
    obtain ⟨-, hmore⟩ := List.cons.inj h
    exact ⟨b.heading :: s₁, [], text, congrArg (b.heading :: ·) hmore, rfl, rfl⟩

/-- **Between any two neighbours on a line there is a place.** -/
theorem exists_between {u : Usage} (h : read source = .ok u)
    (hlexemes : sectionLexemes source u.body = .ok (above ++ x :: y :: below))
    (hline : y.line = x.line) : ∃ before after, Between source above x y below before after := by
  obtain ⟨b, stop, rest, hshows, hu⟩ := read_eq_ok_iff.mp h
  obtain ⟨above', hb⟩ := hshows.block
  have hfind := find_eq_ok_iff.mpr ⟨above', b, hb, rfl⟩
  have hall := hlexemes
  rw [hu] at hlexemes hall
  rw [sectionLexemes_block hb, hshows.label] at hall
  replace hall := Except.ok.inj hall
  have hx : x ∈ lexemes b.number (blanked b.heading stop :: b.more) := by
    rw [hall]
    simp
  obtain ⟨s₁, text, s₂, hshown, hnumber⟩ := exists_split_of_mem hx
  obtain ⟨s₀, lead, tail, hlines, hlength, hink⟩ := exists_line_of_shown hshown
  have hpieces := pieces_onLine b.number hshown
  rw [hall, ← hnumber, List.append_cons, onLine_append, List.map_append] at hpieces
  have hinkall := Lexeme.ink_pieces (spread text)
  rw [← hpieces, Lexeme.ink_spread, ← hink, List.flatMap_append] at hinkall
  obtain ⟨p, q, rfl, -, hq⟩ := Lexeme.exists_ink_split hinkall.symm
  have hnewline := Text.newline_notMem_lines source.toList
  have hsource := Text.joinLines_lines source.toList
  have hcut : Text.lines source.toList =
      (above' ++ s₀) ++ (lead ++ (p ++ q)) :: (s₂ ++ b.below) := by
    rw [hb.cut, hlines]
    simp only [List.append_assoc, List.cons_append]
  rw [hcut] at hnewline hsource
  obtain ⟨habove, hnot⟩ := List.forall_mem_append.mp hnewline
  replace hnot := hnot _ List.mem_cons_self
  rw [List.mem_append, List.mem_append, not_or, not_or] at hnot
  rw [Text.joinLines_append (List.cons_ne_nil _ _), ← List.append_assoc, Text.joinLines_append_head,
    ← List.append_assoc] at hsource
  refine ⟨_, _, ⟨_, hfind, hlexemes⟩, hline, hsource.symm, ?_, ?_⟩
  · rw [List.count_append, Text.count_unlines habove, List.count_eq_zero_of_not_mem, hnumber,
      hb.number, List.length_append, hlength]
    · omega
    · exact fun hmem => (List.mem_append.mp hmem).elim hnot.1 hnot.2.1
  · rw [Text.takeWhile_joinLines hnot.2.2, hq, List.flatMap_map]

/-- The line of the block that a place is on, and the lines of the text that is broken there. -/
theorem Between.exists_line (h : Between source above x y below before after)
    {above' : List (List Char)} (hb : IsBlock source above' b)
    (hall : lexemes b.number (blanked b.heading stop :: b.more) = above ++ x :: y :: below)
    (hblanks : '\n' ∉ blanks) : ∃ s₁ left s₂,
      b.lines = s₁ ++ (left ++ after.takeWhile (· ≠ '\n')) :: s₂ ∧
        x.line = b.number + s₁.length ∧
        Text.lines (broken before blanks after).toList = above' ++
          (s₁ ++ left :: (blanks ++ after.takeWhile (· ≠ '\n')) :: s₂ ++ b.below) := by
  have hx : x ∈ lexemes b.number (blanked b.heading stop :: b.more) := by
    rw [hall]
    simp
  obtain ⟨i, text, hi, hline⟩ := line_of_mem_lexemes hx
  have hilt : i < b.more.length + 1 := (List.getElem?_eq_some_iff.mp hi).1
  have hsize : b.lines.length = b.more.length + 1 := rfl
  have hnumber := hb.number
  have hplace := h.line
  obtain ⟨la, left, lb, hla, hlines, hbroken⟩ := exists_lines_broken before blanks after hblanks
  rw [← h.text, hb.cut] at hlines
  obtain ⟨s₁, s₂, rfl, hs, rfl⟩ := exists_split_middle hlines (by omega) (by omega)
  rw [List.length_append] at hla
  refine ⟨s₁, left, s₂, hs, by omega, ?_⟩
  rw [broken, String.toList_ofList, hbroken]
  simp only [List.append_assoc, List.cons_append]

/-- The heading line may be broken: the label stays on it, and the block has one more line. -/
theorem read_broken_heading {other : String} {above' : List (List Char)}
    {first second : List (List Char)} (h : Shows source b stop program rest)
    (hb : IsBlock source above' b) (hheading : b.heading = left ++ right)
    (hother : Text.lines other.toList =
      above' ++ (left :: (blanks ++ right) :: b.more ++ b.below))
    (hpieces : pieces (spread (blanked b.heading stop)) = first ++ second) (hne : first ≠ [])
    (hink : ink right = second.flatMap ink) (hblanks : Text.AllBlank blanks)
    (hindent : isIndented (blanks ++ right) = true) :
    ReadsAs other program (cutLines program.text rest) := by
  have hlabel := h.label
  rw [hheading] at hpieces hlabel
  have hstop := stop_le hpieces hne hink
  have hblanked : blanked (left ++ right) stop = blanked left stop ++ right := by
    rw [blanked, blanked, List.drop_append_of_le_length hstop, List.append_assoc]
  have hleft := labelEnd?_of_append hlabel hstop
  have hmore : ∀ k ∈ (blanks ++ right) :: b.more, isIndented k = true :=
    List.forall_mem_cons.mpr ⟨hindent, hb.more⟩
  have hblock := onlyBlock_replace hb (isHeading_of_labelEnd? hleft) hmore
  rw [← hother] at hblock
  rw [hblanked] at hpieces
  refine read_other h hblock hleft rfl ?_
  have htexts := texts_broken b.number [] b.more hpieces (ink_before hpieces hink) hblanks
  rw [← h.shown, hheading, hblanked]
  exact htexts

theorem isIndented_of_append (h : isIndented (left ++ right) = true) (hne : left ≠ []) :
    isIndented left = true := by
  obtain ⟨c, left, rfl⟩ := List.exists_cons_of_ne_nil hne
  rw [List.cons_append] at h
  unfold isIndented at h ⊢
  split at h
  next heq =>
    obtain ⟨rfl, -⟩ := List.cons.inj heq
    rfl
  next heq =>
    obtain ⟨rfl, -⟩ := List.cons.inj heq
    rfl
  next => cases h

/-- An indented line may be broken: what is left of it is indented still. -/
theorem read_broken_more {other : String} {above' s₁ s₂ : List (List Char)}
    {first second : List (List Char)} (h : Shows source b stop program rest)
    (hb : IsBlock source above' b) (hmore : b.more = s₁ ++ (left ++ right) :: s₂)
    (hother : Text.lines other.toList =
      above' ++ (b.heading :: (s₁ ++ left :: (blanks ++ right) :: s₂) ++ b.below))
    (hpieces : pieces (spread (left ++ right)) = first ++ second) (hne : first ≠ [])
    (hink : ink right = second.flatMap ink) (hblanks : Text.AllBlank blanks)
    (hindent : isIndented (blanks ++ right) = true) :
    ReadsAs other program (cutLines program.text rest) := by
  have hinkleft := ink_before hpieces hink
  have hall := hb.more
  rw [hmore] at hall
  obtain ⟨hs₁, hlater⟩ := List.forall_mem_append.mp hall
  obtain ⟨hline, hs₂⟩ := List.forall_mem_cons.mp hlater
  have hleft : left ≠ [] := by
    rintro rfl
    exact hne (Lexeme.eq_nil_of_ink hpieces hinkleft.symm)
  have hmore' : ∀ k ∈ s₁ ++ left :: (blanks ++ right) :: s₂, isIndented k = true :=
    List.forall_mem_append.mpr ⟨hs₁, List.forall_mem_cons.mpr
      ⟨isIndented_of_append hline hleft, List.forall_mem_cons.mpr ⟨hindent, hs₂⟩⟩⟩
  have hblock := onlyBlock_replace hb hb.heading hmore'
  rw [← hother] at hblock
  refine read_other h hblock h.label rfl ?_
  have htexts := texts_broken b.number (blanked b.heading stop :: s₁) s₂ hpieces hinkleft hblanks
  rw [← h.shown, hmore]
  exact htexts

/-- **A usage line may be broken between any two of its lexemes**: the section is read to the same
program and the same lexemes on each usage line. -/
theorem read_broken {u : Usage} (h : read source = .ok u)
    (hplace : Between source above x y below before after) (hne : blanks ≠ [])
    (hblanks : ∀ c ∈ blanks, c = ' ' ∨ c = '\t') :
    ∃ v, read (broken before blanks after) = .ok v ∧ v.program.text = u.program.text ∧
      v.lines.map (List.map Lexeme.text) = u.lines.map (List.map Lexeme.text) := by
  obtain ⟨b, stop, rest, hshows, hu⟩ := read_eq_ok_iff.mp h
  obtain ⟨above', hb⟩ := hshows.block
  obtain ⟨found, hfind, hlexemes⟩ := hplace.neighbours
  obtain rfl := Except.ok.inj ((find_eq_ok_iff.mpr ⟨above', b, hb, rfl⟩).symm.trans hfind)
  rw [sectionLexemes_block hb, hshows.label] at hlexemes
  have hall := Except.ok.inj hlexemes
  have hblank : Text.AllBlank blanks := fun c hc => by
    rcases hblanks c hc with rfl | rfl
    · exact Text.isBlank_space
    · exact Text.isBlank_tab
  have hnewline : '\n' ∉ blanks := fun hmem => by
    rcases hblanks _ hmem with heq | heq <;> exact absurd heq (by decide)
  have hindent : isIndented (blanks ++ after.takeWhile (· ≠ '\n')) = true := by
    obtain ⟨c, more, rfl⟩ := List.exists_cons_of_ne_nil hne
    rcases hblanks c List.mem_cons_self with rfl | rfl <;> rfl
  obtain ⟨s₁, left, s₂, hlines, hline, hother⟩ := hplace.exists_line hb hall hnewline
  rw [hu]
  cases s₁ with
  | nil =>
    obtain ⟨hheading, hmore⟩ := List.cons.inj hlines
    obtain ⟨first, second, hpieces, hfirst, hink⟩ :=
      hplace.exists_pieces [] hall rfl hline
    rw [← hmore] at hother
    exact read_broken_heading hshows hb hheading hother hpieces hfirst hink hblank hindent
  | cons heading s₁ =>
    obtain ⟨rfl, hmore⟩ := List.cons.inj hlines
    obtain ⟨first, second, hpieces, hfirst, hink⟩ :=
      hplace.exists_pieces (blanked b.heading stop :: s₁) hall (congrArg _ hmore) hline
    exact read_broken_more hshows hb hmore hother hpieces hfirst hink hblank hindent

/-- A break between two lexemes that touch, the first of which is no slice of its line. -/
theorem read_broken_touching :
    ∃ u x y below, read "Usage: p <x|y>[-a]\n  p" = .ok u ∧
      Between "Usage: p <x|y>[-a]\n  p" [u.program] x y below "Usage: p <x|y>".toList
        "[-a]\n  p".toList ∧
      [' ', '\t'] ≠ [] ∧ (∀ c ∈ [' ', '\t'], c = ' ' ∨ c = '\t') ∧
      ∃ v, read (broken "Usage: p <x|y>".toList [' ', '\t'] "[-a]\n  p".toList) = .ok v ∧
        v.program.text = "p" ∧
        v.lines.map (List.map Lexeme.text) = [["<x | y>", "[", "-a", "]"], []] := by
  have hread : read "Usage: p <x|y>[-a]\n  p" = .ok
      ⟨⟨"Usage: p <x|y>[-a]\n  p", 1, 22⟩, ⟨"p", 1, 7⟩,
        [[⟨"<x | y>", 1, 8⟩, ⟨"[", 1, 15⟩, ⟨"-a", 1, 16⟩, ⟨"]", 1, 18⟩], []]⟩ := by decide +kernel
  have hfind : find "Usage: p <x|y>[-a]\n  p" = .ok ⟨"Usage: p <x|y>[-a]\n  p", 1, 22⟩ := by
    decide +kernel
  have hlexemes : sectionLexemes "Usage: p <x|y>[-a]\n  p" ⟨"Usage: p <x|y>[-a]\n  p", 1, 22⟩ =
      .ok [⟨"p", 1, 7⟩, ⟨"<x | y>", 1, 8⟩, ⟨"[", 1, 15⟩, ⟨"-a", 1, 16⟩, ⟨"]", 1, 18⟩,
        ⟨"p", 2, 2⟩] := by decide +kernel
  have hbehind : ink ("[-a]\n  p".toList.takeWhile (· ≠ '\n')) =
      (onLine [⟨"[", 1, 15⟩, ⟨"-a", 1, 16⟩, ⟨"]", 1, 18⟩, ⟨"p", 2, 2⟩] 1).flatMap fun p =>
        ink p.1 := by decide
  have hplace : Between "Usage: p <x|y>[-a]\n  p" [⟨"p", 1, 7⟩] ⟨"<x | y>", 1, 8⟩ ⟨"[", 1, 15⟩
      [⟨"-a", 1, 16⟩, ⟨"]", 1, 18⟩, ⟨"p", 2, 2⟩] "Usage: p <x|y>".toList "[-a]\n  p".toList :=
    ⟨⟨_, hfind, hlexemes⟩, rfl, by decide, by decide, hbehind⟩
  have hblanks : ∀ c ∈ [' ', '\t'], c = ' ' ∨ c = '\t' :=
    List.forall_mem_cons.mpr ⟨.inl rfl, List.forall_mem_singleton.mpr (.inr rfl)⟩
  obtain ⟨v, hv, hprogram, hlines⟩ := read_broken hread hplace (List.cons_ne_nil ' ' ['\t']) hblanks
  exact ⟨_, _, _, _, hread, hplace, List.cons_ne_nil _ _, hblanks, v, hv, hprogram, hlines⟩

end Usage

end Synopsis
