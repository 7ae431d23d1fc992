import Mathlib.Data.List.Basic
import Synopsis.CommandLine

/-!
# Words of a command line

A command line without quotes that is given as one text has the words between its blanks for
arguments, so giving the words as a list is the same.
-/

namespace Synopsis

namespace Text

variable {w g : List Char} {c : Char} {kept : List (Option Char)}

structure IsPlainWord (w : List Char) : Prop where
  nonempty : w ≠ []
  unquoted : ∀ c ∈ w, isQuote c = false
  whole : ∀ c ∈ w, isParting c = false

def IsGap (gap : List Char) : Prop :=
  ∀ c ∈ gap, isParting c = true

theorem isQuote_of_isParting (h : isParting c = true) : isQuote c = false := by
  simp only [isParting, Bool.or_eq_true, beq_iff_eq] at h
  rcases h with (rfl | rfl) | rfl <;> decide

namespace Cutting

variable {s : Cutting}

/-- No quote is open, and the given characters were kept. -/
structure Free (s : Cutting) (kept : List (Option Char)) : Prop where
  quote : s.quote = none
  kept : s.kept = kept

theorem Free.keep (h : s.Free kept) (hq : isQuote c = false) (hp : isParting c = false)
    (place : Nat) (next : Option Char) : (s.take place c next).Free (kept ++ [some c]) := by
  rw [take, hq, hp]
  exact ⟨h.quote, congrArg (· ++ [some c]) h.kept⟩

theorem Free.part (h : s.Free kept) (hp : isParting c = true) (place : Nat) (next : Option Char) :
    (s.take place c next).Free
      (if kept.isEmpty || kept.getLast? == some none then kept else kept ++ [none]) := by
  have hq := isQuote_of_isParting hp
  rw [← h.kept]
  constructor
  · simp [take, hq, hp, takeParting, h.quote]
  · simp [take, hq, hp, takeParting, h.quote]

/-- A word is kept as it stands. -/
theorem Free.word (h : s.Free kept) (hq : ∀ c ∈ w, isQuote c = false)
    (hp : ∀ c ∈ w, isParting c = false) (place : Nat) (rest : List Char) :
    ∃ (s' : Cutting) (place' : Nat), s'.Free (kept ++ w.map some) ∧
      s.takeAll place (w ++ rest) = s'.takeAll place' rest := by
  induction w generalizing s kept place with
  | nil => exact ⟨s, place, by rwa [List.map_nil, List.append_nil], rfl⟩
  | cons c w ih =>
    rw [List.forall_mem_cons] at hq hp
    have hkept := h.keep hq.1 hp.1 place (w ++ rest).head?
    obtain ⟨s', place', hfree, hrest⟩ := ih hkept hq.2 hp.2 (place + 1)
    rw [List.append_assoc] at hfree
    exact ⟨s', place', hfree, hrest⟩

/-- Blanks behind a cut cut nothing more. -/
theorem Free.more (h : s.Free (kept ++ [none])) (hgap : IsGap g) (place : Nat) (rest : List Char) :
    ∃ (s' : Cutting) (place' : Nat), s'.Free (kept ++ [none]) ∧
      s.takeAll place (g ++ rest) = s'.takeAll place' rest := by
  induction g generalizing s place with
  | nil => exact ⟨s, place, h, rfl⟩
  | cons c g ih =>
    rw [IsGap, List.forall_mem_cons] at hgap
    have hparted := h.part hgap.1 place (g ++ rest).head?
    rw [if_pos (by simp)] at hparted
    exact ih hparted hgap.2 (place + 1)

/-- A gap behind a word is one cut. -/
theorem Free.gap (h : s.Free (kept ++ [some c])) (hgap : IsGap g) (hne : g ≠ []) (place : Nat)
    (rest : List Char) : ∃ (s' : Cutting) (place' : Nat), s'.Free (kept ++ [some c] ++ [none]) ∧
      s.takeAll place (g ++ rest) = s'.takeAll place' rest := by
  cases g with
  | nil => exact absurd rfl hne
  | cons d g =>
    rw [IsGap, List.forall_mem_cons] at hgap
    have hparted := h.part hgap.1 place (g ++ rest).head?
    rw [if_neg (by simp)] at hparted
    exact hparted.more hgap.2 (place + 1) rest

theorem arguments_word (w : List Char) : arguments (w.map some) = [w] := by
  induction w with
  | nil => rfl
  | cons c w ih => rw [List.map_cons, arguments, ih]

theorem arguments_word_cut (w : List Char) (r : List (Option Char)) :
    arguments (w.map some ++ none :: r) = w :: arguments r := by
  induction w with
  | nil => rfl
  | cons c w ih => rw [List.map_cons, List.cons_append, arguments, ih]

end Cutting

/-- Words, each behind its gap. -/
def spread (more : List (List Char × List Char)) : List Char :=
  more.flatMap fun (gap, word) => gap ++ word

/-- What is kept of words behind gaps. -/
def cuts (more : List (List Char × List Char)) : List (Option Char) :=
  more.flatMap fun (_, word) => none :: word.map some

/-- Each gap parts, and a word stands behind it. -/
def Gapped (more : List (List Char × List Char)) : Prop :=
  ∀ p ∈ more, p.1 ≠ [] ∧ IsGap p.1 ∧ IsPlainWord p.2

variable {more : List (List Char × List Char)}

namespace Cutting

theorem arguments_cuts (w : List Char) (more : List (List Char × List Char)) :
    arguments (w.map some ++ cuts more) = w :: more.map Prod.snd := by
  induction more generalizing w with
  | nil => rw [cuts, List.flatMap_nil, List.append_nil, arguments_word, List.map_nil]
  | cons p more ih =>
    rw [cuts, List.flatMap_cons, List.cons_append, arguments_word_cut, ← cuts, ih, List.map_cons]

/-- A word ends with a character. -/
theorem exists_concat (hw : IsPlainWord w) (kept : List (Option Char)) :
    ∃ before c, kept ++ w.map some = before ++ [some c] := by
  refine ⟨kept ++ w.dropLast.map some, w.getLast hw.nonempty, ?_⟩
  rw [List.append_assoc, ← List.map_singleton, ← List.map_append, List.dropLast_concat_getLast]

theorem Free.spread {s : Cutting} {before : List (Option Char)} (h : s.Free (before ++ [some c]))
    (hmore : Gapped more) (place : Nat) :
    (s.takeAll place (spread more)).Free (before ++ [some c] ++ cuts more) := by
  induction more generalizing s before c place with
  | nil => rwa [cuts, List.flatMap_nil, List.append_nil]
  | cons p more ih =>
    obtain ⟨⟨hne, hgap, hword⟩, hrest⟩ := List.forall_mem_cons.mp hmore
    rw [Text.spread, List.flatMap_cons, List.append_assoc, ← Text.spread]
    obtain ⟨s₁, place₁, hcut, hgone⟩ := h.gap hgap hne place (p.2 ++ Text.spread more)
    obtain ⟨s₂, place₂, hkept, hread⟩ :=
      hcut.word hword.unquoted hword.whole place₁ (Text.spread more)
    obtain ⟨before', d, hlast⟩ := exists_concat hword (before ++ [some c] ++ [none])
    rw [hgone, hread]
    rw [hlast] at hkept
    have hall := ih hkept hrest place₂
    rw [← hlast, List.append_assoc _ [none], List.append_assoc] at hall
    exact hall

end Cutting

/-- Blanks at the ends are not looked at. -/
theorem trimmed_of_gaps {left right text : List Char} (hleft : IsGap left) (hright : IsGap right)
    {first last : Char} {after before : List Char} (hfirst : text = first :: after)
    (hlast : text = before ++ [last]) (hf : isParting first = false)
    (hl : isParting last = false) :
    (((left ++ text ++ right).dropWhile isParting).reverse.dropWhile isParting).reverse = text := by
  have hfront : (left ++ text ++ right).dropWhile isParting = text ++ right := by
    rw [List.append_assoc, List.dropWhile_append_of_pos hleft, hfirst, List.cons_append,
      List.dropWhile_cons_of_neg (by simp [hf])]
  have hback : (text ++ right).reverse.dropWhile isParting = text.reverse := by
    have hgap : ∀ c ∈ right.reverse, isParting c = true :=
      fun c hc => hright c (List.mem_reverse.mp hc)
    rw [List.reverse_append, List.dropWhile_append_of_pos hgap, hlast, List.reverse_append,
      List.reverse_singleton, List.singleton_append, List.dropWhile_cons_of_neg (by simp [hl])]
  rw [hfront, hback, List.reverse_reverse]

/-- A text that starts with a word ends with one. -/
theorem exists_last {first : List Char} (hfirst : IsPlainWord first) (hmore : Gapped more) :
    ∃ before last, first ++ spread more = before ++ [last] ∧ isParting last = false := by
  induction more generalizing first with
  | nil =>
    refine ⟨first.dropLast, first.getLast hfirst.nonempty, ?_,
      hfirst.whole _ (List.getLast_mem hfirst.nonempty)⟩
    rw [spread, List.flatMap_nil, List.append_nil, List.dropLast_concat_getLast]
  | cons p more ih =>
    obtain ⟨⟨-, -, hword⟩, hrest⟩ := List.forall_mem_cons.mp hmore
    obtain ⟨before, last, hlast, hwhole⟩ := ih hword hrest
    refine ⟨first ++ p.1 ++ before, last, ?_, hwhole⟩
    rw [spread, List.flatMap_cons, ← spread, List.append_assoc p.1, hlast]
    simp only [List.append_assoc]

/-- **A text without quotes has the words between its blanks for arguments.** -/
theorem commandArguments_words {left right first : List Char} (hleft : IsGap left)
    (hright : IsGap right) (hfirst : IsPlainWord first) (hmore : Gapped more) :
    commandArguments (String.ofList (left ++ (first ++ spread more) ++ right)) =
      (first :: more.map Prod.snd).map String.ofList := by
  obtain ⟨head, after, rfl⟩ := List.exists_cons_of_ne_nil hfirst.nonempty
  obtain ⟨before, last, hlast, hwhole⟩ := exists_last hfirst hmore
  have htext := trimmed_of_gaps hleft hright (List.cons_append ..) hlast
    (hfirst.whole head List.mem_cons_self) hwhole
  obtain ⟨s, place, hkept, hread⟩ := Cutting.Free.word (s := {}) ⟨rfl, rfl⟩ hfirst.unquoted
    hfirst.whole 1 (spread more)
  obtain ⟨shorter, c, hend⟩ := Cutting.exists_concat hfirst []
  rw [hend] at hkept
  have hcut := hkept.spread hmore place
  rw [← hend, List.nil_append] at hcut
  have hsome : ¬ (s.takeAll place (spread more)).kept.isEmpty = true := by
    rw [hcut.kept]
    simp
  rw [commandArguments, String.toList_ofList, htext, hread, if_neg hsome, Cutting.settle,
    hcut.quote, hcut.kept]
  exact congrArg (List.map String.ofList) (Cutting.arguments_cuts (head :: after) more)

end Text

/-- **One text or a list of words**: a command line means the same. -/
theorem CommandLine.arguments_text_words {left right first : List Char}
    {more : List (List Char × List Char)} (hleft : Text.IsGap left) (hright : Text.IsGap right)
    (hfirst : Text.IsPlainWord first) (hmore : Text.Gapped more) (own : List String) :
    (text (String.ofList (left ++ (first ++ Text.spread more) ++ right))).arguments own =
      (list ((first :: more.map Prod.snd).map String.ofList)).arguments own :=
  Text.commandArguments_words hleft hright hfirst hmore

/-- Quotes hold blanks together, as the words of a list may. -/
example : CommandLine.arguments [] (.text "ship 'new york' --fast") =
    ["ship", "new york", "--fast"] := by
  decide

end Synopsis
