import Mathlib.Data.List.Basic
import Synopsis.Description
import Synopsis.Proofs.Lookup
import Synopsis.Proofs.SectionBlocks
import Synopsis.Proofs.Success

/-!
# The entries of options sections

The lines of an options section, behind its first colon, are divided into entries (`Divides`), and
each of them is a line of the help text with the number that it is counted by (`ComesFrom`). An
entry starts with a dash, so the first word in it is a form: it is read, or refused for a default
value that goes with no placeholder.
-/

namespace Synopsis

namespace Text

variable {s : List Char} {c : Char}

theorem after_append (h : c ∉ s) (r : List Char) : after [c] (s ++ c :: r) = r := by
  have hsplit := splitAt_append h r
  unfold splitAt at hsplit
  unfold after
  split at hsplit
  next => exact Option.some.inj (Prod.mk.inj hsplit).2
  next => exact nomatch (Prod.mk.inj hsplit).2

theorem words_cons (hc : isBlank c = false) (r : List Char) :
    ∃ tail more, words (c :: r) = (c :: tail) :: more := by
  cases r with
  | nil => exact ⟨[], [], by rw [words, if_neg (Bool.eq_false_iff.mp hc)]⟩
  | cons d r =>
    rw [words, if_neg (Bool.eq_false_iff.mp hc)]
    split
    · exact ⟨[], _, rfl⟩
    · split
      · exact ⟨[], [], rfl⟩
      · exact ⟨_, _, rfl⟩

end Text

namespace Description

open Text (AllBlank)

variable {number : Nat} {ls before : List (List Char)} {groups : List (Nat × List (List Char))}

/-- **Lines are divided into entries**: those before the first line that starts an entry, and one
entry for each line that does, which goes on to the next one or to the end. Each has the number of
its first line. -/
structure Divides (number : Nat) (ls before : List (List Char))
    (groups : List (Nat × List (List Char))) : Prop where
  cover : ls = before ++ groups.flatMap Prod.snd
  starts_none : ∀ l ∈ before, startsEntry l = false
  starts_one : ∀ g ∈ groups, ∃ first tail, g.2 = first :: tail ∧ startsEntry first = true ∧
    ∀ l ∈ tail, startsEntry l = false
  numbered : ∀ above g below, groups = above ++ g :: below →
    g.1 = number + (before ++ above.flatMap Prod.snd).length

theorem group_divides (number : Nat) (ls : List (List Char)) :
    Divides number ls (group number ls).1 (group number ls).2 := by
  induction ls generalizing number with
  | nil => exact ⟨rfl, nofun, nofun, fun above g below h => by simp [group] at h⟩
  | cons line ls ih =>
    obtain ⟨hcover, hnone, hone, hnumbered⟩ := ih (number + 1)
    rw [group]
    generalize group (number + 1) ls = divided at hcover hnone hone hnumbered
    obtain ⟨tail, entries⟩ := divided
    dsimp only at hcover hnone hone hnumbered ⊢
    by_cases hline : startsEntry line = true
    · rw [if_pos hline]
      refine ⟨?_, nofun, ?_, ?_⟩
      · rw [List.nil_append, List.flatMap_cons, List.cons_append, ← hcover]
      · exact List.forall_mem_cons.mpr ⟨⟨line, tail, rfl, hline, hnone⟩, hone⟩
      · intro above g below h
        cases above with
        | nil =>
          obtain ⟨rfl, -⟩ := List.cons.inj h
          rfl
        | cons first above =>
          obtain ⟨hfirst, h⟩ := List.cons.inj h
          rw [← hfirst, hnumbered above g below h, List.nil_append, List.flatMap_cons,
            List.cons_append, List.length_cons]
          omega
    · rw [if_neg hline]
      refine ⟨congrArg (line :: ·) hcover, ?_, hone, fun above g below h => ?_⟩
      · exact List.forall_mem_cons.mpr ⟨Bool.eq_false_iff.mpr hline, hnone⟩
      · rw [hnumbered above g below h, List.cons_append, List.length_cons]
        omega

/-- The forms hold one that can be written. -/
def Forms.IsNamed (f : Forms) : Prop :=
  (∃ form, f.short = some form ∧ form ≠ "") ∨ ∃ form, f.long = some form ∧ form ≠ ""

theorem Forms.isNamed_add_dash (f : Forms) (w : List Char) : (f.add ('-' :: w)).IsNamed := by
  unfold add
  split
  next heq =>
    rw [(List.cons.inj heq).2]
    exact .inr ⟨_, rfl, OptionTable.ofList_ne_empty⟩
  next => exact .inl ⟨_, rfl, OptionTable.ofList_ne_empty⟩
  next _ hnone => exact absurd rfl (hnone w)

theorem Forms.IsNamed.add {f : Forms} (h : f.IsNamed) (w : List Char) : (f.add w).IsNamed := by
  unfold Forms.add
  split
  · exact .inr ⟨_, rfl, OptionTable.ofList_ne_empty⟩
  · exact .inl ⟨_, rfl, OptionTable.ofList_ne_empty⟩
  · exact h

theorem Forms.IsNamed.foldl {f : Forms} (h : f.IsNamed) (ws : List (List Char)) :
    (ws.foldl Forms.add f).IsNamed := by
  induction ws generalizing f with
  | nil => exact h
  | cons w ws ih => exact ih (h.add w)

/-- What starts with a dash names a form. -/
theorem isNamed_forms (s : List Char) : (forms ('-' :: s)).IsNamed := by
  obtain ⟨tail, more, hwords⟩ := Text.words_cons (c := '-') (by decide) (s.map partWords)
  have hdash : partWords '-' = '-' := by decide
  rw [forms, List.map_cons, hdash, hwords, List.foldl_cons]
  have hfirst := Forms.isNamed_add_dash {} tail
  exact hfirst.foldl more

theorem Forms.IsNamed.isNamed {f : Forms} (h : f.IsNamed) (arity : Int) (default : Option String) :
    OptionDef.isNamed ⟨f.short, f.long, arity, default⟩ = true := by
  rw [OptionDef.isNamed, Bool.or_eq_true]
  rcases h with ⟨form, hform, hne⟩ | ⟨form, hform, hne⟩
  · left
    simp [OptionDef.short?, hform, hne]
  · right
    simp [OptionDef.long?, hform, hne]

/-- **An entry that starts with a dash is read, or refused for its default value.** -/
theorem read_of_dash {entry s : List Char} (h : Text.trim entry = '-' :: s) (line : Option Int) :
    (∃ o, read entry line = .ok o) ∨
      ∃ form, read entry line = .error ⟨.defaultWithoutValue form, line, none⟩ := by
  have hnamed : ∃ t prose,
      (Text.cut? [' ', ' '] (Text.trim entry)).getD (Text.trim entry, []) = ('-' :: t, prose) := by
    cases hcut : Text.cut? [' ', ' '] (Text.trim entry) with
    | none => exact ⟨s, [], by rw [h]; rfl⟩
    | some parts =>
      obtain ⟨named, prose⟩ := parts
      have happend := Text.cut?_append hcut
      rw [h] at happend
      cases named with
      | nil => exact absurd (List.cons.inj happend).1 (by decide)
      | cons c named =>
        obtain ⟨rfl, -⟩ := List.cons.inj happend
        exact ⟨named, prose, rfl⟩
  obtain ⟨t, prose, hparts⟩ := hnamed
  unfold read
  rw [hparts]
  dsimp only
  split
  next => exact .inr ⟨_, rfl⟩
  next =>
    rw [if_pos ((isNamed_forms t).isNamed _ _)]
    exact .inl ⟨_, rfl⟩

/-- The text of an entry starts with a dash. -/
theorem trim_entry {first : List Char} (h : startsEntry first = true) (tail : List (List Char)) :
    ∃ s, Text.trim (Text.joinLines (first :: tail)) = '-' :: s := by
  obtain ⟨gap, hgap, hfirst⟩ := Text.exists_trimLeft first
  rw [startsEntry, beq_iff_eq] at h
  obtain ⟨s, hs⟩ : ∃ s, Text.trimLeft first = '-' :: s := by
    cases hs : Text.trimLeft first with
    | nil =>
      rw [hs] at h
      exact nomatch h
    | cons c s =>
      rw [hs] at h
      exact ⟨s, congrArg (· :: s) (Option.some.inj h)⟩
  rw [hfirst, hs, Text.trim_joinLines (by decide), Text.trimLeft_of_blank hgap]
  exact ⟨_, rfl⟩

/-- **The line of the help text that a line of a section is**: on the heading line what stands
behind the first colon, and nowhere the blanks at the end of the section. -/
def ComesFrom (source : String) (part : Section) (number : Nat) (l : List Char) : Prop :=
  ∃ own cut gap, (Text.lines source.toList)[number - 1]? = some own ∧ own = cut ++ (l ++ gap) ∧
    AllBlank gap ∧ (part.line < number ∧ cut = [] ∨
      number = part.line ∧ ∃ start, cut = start ++ [':'] ∧ ':' ∉ start)

/-- Without the blanks at its end a text has the same lines up to its last one. -/
theorem exists_line_of_trimRight {l : List Char} {i : Nat} (hls : ∀ k ∈ ls, '\n' ∉ k)
    (hne : ls ≠ []) (hi : (Text.lines (Text.trimRight (Text.joinLines ls)))[i]? = some l) :
    ∃ gap, ls[i]? = some (l ++ gap) ∧ AllBlank gap := by
  by_cases hink : ∃ k ∈ ls, ¬ AllBlank k
  · obtain ⟨kept, last, dropped, rfl, -, -, htrim⟩ := Text.exists_trimRight_joinLines hink
    obtain ⟨gap, hgap, hlast⟩ := Text.exists_trimRight last
    rw [htrim, Text.lines_joinLines (by simp) (Text.newline_notMem_trimmed hls),
      List.getElem?_append] at hi
    rw [List.getElem?_append]
    split at hi
    next hlt =>
      rw [if_pos hlt]
      exact ⟨[], by rw [List.append_nil, hi], Text.allBlank_nil⟩
    next hge =>
      rw [if_neg hge]
      cases hlast' : i - kept.length with
      | zero =>
        rw [hlast'] at hi
        obtain rfl := Option.some.inj hi
        exact ⟨gap, congrArg some hlast, hgap⟩
      | succ n =>
        rw [hlast'] at hi
        exact nomatch hi
  · have hblank : AllBlank (Text.joinLines ls) :=
      Text.allBlank_joinLines_iff.mpr fun k hk => not_not.mp fun hn => hink ⟨k, hk, hn⟩
    rw [Text.trimRight_eq_nil_iff.mpr hblank] at hi
    cases i with
    | zero =>
      obtain rfl := Option.some.inj hi
      obtain ⟨k, more, rfl⟩ := List.exists_cons_of_ne_nil hne
      exact ⟨k, rfl, not_not.mp fun hn => hink ⟨k, List.mem_cons_self, hn⟩⟩
    | succ n => exact nomatch hi

/-- The lines of a section behind its first colon. -/
def bodyLines (part : Section) : List (List Char) :=
  Text.lines (Text.after [':'] part.text.toList)

/-- Each line of a section is counted by its number in the help text. -/
theorem comesFrom_of_body {source : String} {part : Section}
    (hpart : part ∈ Section.findAll "options:" source) {i : Nat} {l : List Char}
    (hi : (bodyLines part)[i]? = some l) : ComesFrom source part (part.line + i) l := by
  obtain ⟨before, heading, more, below, hlines, hline, htext, _, word, _, rfl, hword⟩ :=
    Section.exists_lines_of_mem (by decide) (by decide) hpart
  have hcolon : ':' ∈ word := hword.sign_mem (by decide) (by decide) (by decide)
  obtain ⟨start, rest, hheading, hstart⟩ :=
    List.eq_append_cons_of_mem (List.mem_append_right _ (List.mem_append_left _ hcolon))
  rw [hheading] at hlines htext
  have hnewline : ∀ k ∈ rest :: more, '\n' ∉ k := by
    have hall := Text.newline_notMem_lines source.toList
    rw [hlines] at hall
    refine List.forall_mem_cons.mpr ⟨fun hmem => hall (start ++ ':' :: rest) (by simp) ?_,
      fun k hk => hall k (by simp [hk])⟩
    exact List.mem_append_right start (List.mem_cons_of_mem _ hmem)
  have hbody : Text.after [':'] part.text.toList =
      Text.trimRight (Text.joinLines (rest :: more)) := by
    obtain ⟨gap, -, hgap⟩ := Text.exists_trimLeft start
    have htrim : ':' ∉ Text.trimLeft start := fun hmem =>
      hstart (hgap ▸ List.mem_append_right gap hmem)
    rw [htext, String.toList_ofList, Text.trim_joinLines (by decide), Text.after_append htrim]
  rw [bodyLines, hbody] at hi
  obtain ⟨gap, hown, hgap⟩ := exists_line_of_trimRight hnewline (List.cons_ne_nil _ _) hi
  have hindex : part.line + i - 1 = before.length + i := by omega
  have hsource : (Text.lines source.toList)[part.line + i - 1]? =
      ((start ++ ':' :: rest) :: more ++ below)[i]? := by
    rw [hlines, hindex, List.getElem?_append_right (Nat.le_add_right _ _), Nat.add_sub_cancel_left]
  cases i with
  | zero =>
    obtain rfl := Option.some.inj hown
    refine ⟨_, start ++ [':'], gap, hsource, ?_, hgap, .inr ⟨rfl, start, rfl, hstart⟩⟩
    rw [List.append_assoc, List.singleton_append]
  | succ i =>
    refine ⟨_, [], gap, hsource.trans ?_, rfl, hgap, .inl ⟨by omega, rfl⟩⟩
    exact List.getElem?_append_left (List.getElem?_eq_some_iff.mp hown).1 |>.trans hown

/-- An entry is counted by the number of its first line in the help text. -/
theorem Divides.comesFrom_first {source : String} {part : Section}
    (h : Divides part.line (bodyLines part) before groups)
    (hpart : part ∈ Section.findAll "options:" source) {g : Nat × List (List Char)}
    (hg : g ∈ groups) : ∃ first ∈ g.2.head?, ComesFrom source part g.1 first := by
  obtain ⟨first, tail, htail, -⟩ := h.starts_one g hg
  obtain ⟨above, below, rfl⟩ := List.append_of_mem hg
  refine ⟨first, congrArg List.head? htail, ?_⟩
  rw [h.numbered above g below rfl]
  refine comesFrom_of_body hpart ?_
  have hcover := h.cover
  rw [List.flatMap_append, List.flatMap_cons, htail, List.cons_append,
    ← List.append_assoc] at hcover
  rw [hcover, List.getElem?_append_right (Nat.le_refl _), Nat.sub_self]
  rfl

/-- Each entry of a section starts with a dash. -/
theorem read_of_mem_entries {part : Section} {e : Nat × List Char} (he : e ∈ entries part) :
    (∃ o, read e.2 (some e.1) = .ok o) ∨
      ∃ form, read e.2 (some e.1) = .error ⟨.defaultWithoutValue form, some e.1, none⟩ := by
  obtain ⟨g, hg, rfl⟩ := List.mem_map.mp he
  obtain ⟨first, tail, hlines, hstarts, -⟩ :=
    (group_divides part.line (bodyLines part)).starts_one g hg
  obtain ⟨s, hs⟩ := trim_entry hstarts tail
  rw [← hlines] at hs
  exact read_of_dash hs _

/-- **Reading options sections ends in a table or at an entry that is to blame.** The lines of each
section behind its first colon are divided into entries, which are counted by their lines in the
help text. Each entry is an option or declares a default value without a placeholder, and the first
one that does so is blamed at its line. -/
theorem read_divides_or_blames (source : String) :
    (∀ part ∈ Section.findAll "options:" source, ∃ before groups,
      Divides part.line (bodyLines part) before groups ∧
      entries part = groups.map (fun g => (g.1, Text.joinLines g.2)) ∧
      ∀ g ∈ groups, ∃ first ∈ g.2.head?, ComesFrom source part g.1 first) ∧
    (∀ e ∈ (Section.findAll "options:" source).flatMap entries,
      (∃ o, read e.2 (some e.1) = .ok o) ∨
        ∃ form, read e.2 (some e.1) = .error ⟨.defaultWithoutValue form, some e.1, none⟩) ∧
    ((∃ os, List.Forall₂ (fun e o => read e.2 (some e.1) = .ok o)
        ((Section.findAll "options:" source).flatMap entries) os ∧
        OptionTable.read source = .ok (.ofList os)) ∨
      ∃ before e after form,
        (Section.findAll "options:" source).flatMap entries = before ++ e :: after ∧
        (∀ x ∈ before, ∃ o, read x.2 (some x.1) = .ok o) ∧
        read e.2 (some e.1) = .error ⟨.defaultWithoutValue form, some e.1, none⟩ ∧
        OptionTable.read source = .error ⟨.defaultWithoutValue form, some e.1, none⟩) := by
  have hread : ∀ e ∈ (Section.findAll "options:" source).flatMap entries,
      (∃ o, read e.2 (some e.1) = .ok o) ∨
        ∃ form, read e.2 (some e.1) = .error ⟨.defaultWithoutValue form, some e.1, none⟩ := by
    intro e he
    obtain ⟨part, -, he⟩ := List.mem_flatMap.mp he
    exact read_of_mem_entries he
  refine ⟨fun part hpart => ?_, hread, ?_⟩
  · have hdivides := group_divides part.line (bodyLines part)
    exact ⟨_, _, hdivides, rfl, fun g hg => hdivides.comesFrom_first hpart hg⟩
  · rcases mapM_cases (fun e : Nat × List Char => read e.2 (some e.1))
      ((Section.findAll "options:" source).flatMap entries) with
      ⟨os, hall, hos⟩ | ⟨before, e, after, fault, hsplit, hbefore, he, hfault⟩
    · exact .inl ⟨os, hall, bind_eq_ok.mpr ⟨os, hos, rfl⟩⟩
    · have hmem : e ∈ (Section.findAll "options:" source).flatMap entries := by
        rw [hsplit]
        exact List.mem_append_right before List.mem_cons_self
      rcases hread e hmem with ⟨o, ho⟩ | ⟨form, hform⟩
      · exact nomatch ho.symm.trans he
      · obtain rfl := Except.error.inj (hform.symm.trans he)
        exact .inr ⟨before, e, after, form, hsplit, hbefore, hform,
          bind_eq_error.mpr (.inl hfault)⟩

end Description

end Synopsis
