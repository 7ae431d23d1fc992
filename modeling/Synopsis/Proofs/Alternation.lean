import Synopsis.Proofs.Derivation
import Synopsis.Proofs.UsageGrammar

/-!
# The language of a choice

The bars of a choice that stand outside all brackets separate its alternatives. A choice that is
read accepts what one of its alternatives accepts, with one exception: an alternative without any
element is dropped, unless there is no other one.
-/

namespace Synopsis.Pattern

open Matching

variable {t u : OptionTable} {ps : List Pattern} {qs : List (List Pattern)} {s used : List Lexeme}
  {lex : Lexeme} {depth : Nat}

/-- The number of brackets open after a lexeme. -/
def depthAfter (depth : Nat) (lex : Lexeme) : Nat :=
  if (closing? lex.text).isSome then depth + 1
  else if endsChoice lex.text then depth - 1
  else depth

/-- The alternatives: what the bars outside all brackets separate. -/
def alternatives : Nat → List Lexeme → List (List Lexeme)
  | _, [] => [[]]
  | depth, lex :: rest =>
    if depth = 0 ∧ lex.text = "|" then [] :: alternatives 0 rest
    else (alternatives (depthAfter depth lex) rest).modifyHead (lex :: ·)

/-- The lexemes are part of one alternative and close the brackets that they open. -/
def Spans (depth : Nat) (s : List Lexeme) : Prop :=
  ∀ rest, alternatives depth (s ++ rest) = (alternatives depth rest).modifyHead (s ++ ·)

theorem spans_nil : Spans depth [] := by
  intro rest
  exact (congrFun List.modifyHead_id _).symm

theorem Spans.append {more : List Lexeme} (h : Spans depth s) (hmore : Spans depth more) :
    Spans depth (s ++ more) := by
  intro rest
  rw [List.append_assoc, h, hmore, List.modifyHead_modifyHead]
  exact congrArg (List.modifyHead · _) (funext fun _ => (List.append_assoc ..).symm)

/-- A lexeme that is neither a bracket nor a bar outside all brackets stays in its alternative. -/
theorem spans_single (hopen : closing? lex.text = none) (hclose : endsChoice lex.text = false)
    (hbar : depth = 0 → lex.text ≠ "|") : Spans depth [lex] := by
  intro rest
  have hdepth : depthAfter depth lex = depth := by
    unfold depthAfter
    rw [hopen, hclose]
    rfl
  rw [List.singleton_append, alternatives, if_neg fun h => hbar h.1 h.2, hdepth]
  rfl

theorem spans_bar (h : lex.text = "|") : Spans (depth + 1) [lex] :=
  spans_single (by rw [h]; rfl) (by rw [h]; rfl) nofun

theorem spans_dots (h : lex.text = "...") : Spans depth [lex] :=
  spans_single (by rw [h]; rfl) (by rw [h]; rfl) fun _ => by rw [h]; decide

theorem spans_word (hopen : closing? lex.text = none) (hends : endsSequence lex.text = false) :
    Spans depth [lex] := by
  simp only [endsSequence, List.mem_cons, List.not_mem_nil, or_false, decide_eq_false_iff_not,
    not_or] at hends
  refine spans_single hopen ?_ fun _ => hends.2.2
  simp only [endsChoice, List.mem_cons, List.not_mem_nil, or_false, decide_eq_false_iff_not, not_or]
  exact ⟨hends.1, hends.2.1⟩

theorem depthAfter_closing (h : endsChoice lex.text = true) :
    depthAfter (depth + 1) lex = depth := by
  have hno : (closing? lex.text).isSome = false := by
    simp only [endsChoice, List.mem_cons, List.not_mem_nil, or_false, decide_eq_true_eq] at h
    rcases h with h | h <;> rw [h] <;> rfl
  unfold depthAfter
  rw [if_neg (Bool.eq_false_iff.mp hno), if_pos h]
  rfl

theorem spans_brackets {opening closing : Lexeme} (hopen : (closing? opening.text).isSome = true)
    (h : Spans (depth + 1) s) (hclose : endsChoice closing.text = true) :
    Spans depth (opening :: (s ++ [closing])) := by
  intro rest
  have hin : depthAfter depth opening = depth + 1 := if_pos hopen
  have hbar : opening.text ≠ "|" := by
    intro hbar
    rw [hbar] at hopen
    exact nomatch hopen
  have hstep : alternatives depth (opening :: (s ++ [closing]) ++ rest) =
      (alternatives (depth + 1) (s ++ closing :: rest)).modifyHead (opening :: ·) := by
    rw [List.cons_append, alternatives, if_neg fun h => hbar h.2, hin, List.append_assoc]
    rfl
  rw [hstep, h, alternatives, if_neg nofun, depthAfter_closing hclose]
  simp only [List.modifyHead_modifyHead]
  exact congrArg (List.modifyHead · _) (funext fun _ => by simp)

theorem not_endsSequence_of_isPlaceholder (h : isPlaceholder lex.text = true) :
    closing? lex.text = none ∧ endsSequence lex.text = false := by
  simp only [isPlaceholder, isDelimiter, List.mem_cons, List.not_mem_nil, or_false,
    Bool.and_eq_true, Bool.not_eq_true', decide_eq_false_iff_not, not_or] at h
  obtain ⟨-, hopen, hclose, hopen', hclose', hbar, -⟩ := h
  constructor
  · rw [closing?, if_neg hopen, if_neg hopen']
  · simp only [endsSequence, List.mem_cons, List.not_mem_nil, or_false, decide_eq_false_iff_not,
      not_or]
    exact ⟨hclose, hclose', hbar⟩

theorem Operand.spans {o : OptionDef} {inline : Bool} (h : Operand o inline used) :
    Spans depth used := by
  cases h with
  | flag => exact spans_nil
  | inline => exact spans_nil
  | placeholder _ hp =>
    obtain ⟨hopen, hends⟩ := not_endsSequence_of_isPlaceholder hp
    exact spans_word hopen hends

theorem Letters.spans {letters : List Char} {os : List OptionDef}
    (h : Letters t letters used os u) : Spans depth used := by
  induction h with
  | nil => exact spans_nil
  | flag _ _ ih => exact ih
  | valued _ _ hop => exact hop.spans

theorem Word.spans (h : Word t lex used ps u) : Spans depth used := by
  cases h with
  | shortcut => exact spans_nil
  | long _ hw =>
    cases hw with
    | new => exact spans_nil
    | known _ hop => exact hop.spans
  | cluster _ _ hl => exact hl.spans
  | name => exact spans_nil

/-- A choice is a row of branches. -/
theorem Choice.branches (h : Choice t s ps u) : ∃ qs, Branches t s qs u := by
  cases h with
  | single h => exact ⟨_, .last h⟩
  | among h hbar hmore => exact ⟨_, .more h hbar hmore⟩

-- By induction on the number of lexemes, as the branches of a choice are no part of its derivation.
mutual

/-- In brackets no bar separates alternatives. -/
theorem Branches.spans : ∀ {t s qs u}, Branches t s qs u → ∀ depth, Spans (depth + 1) s
  | _, _, _, _, .last h, depth => h.spans (depth + 1)
  | _, _, _, _, .more h hbar hmore, depth =>
    (h.spans (depth + 1)).append ((spans_bar hbar).append (hmore.spans depth))
termination_by _ s => 2 * s.length + 2

/-- A sequence has no bar outside its brackets. -/
theorem Sequence.spans : ∀ {t s ps u}, Sequence t s ps u → ∀ depth, Spans depth s
  | _, _, _, _, .nil, _ => spans_nil
  | _, _, _, _, .cons h hmore, depth => (h.spans depth).append (hmore.spans depth)
  | _, _, _, _, .repeated h hdots hmore, depth =>
    (h.spans depth).append ((spans_dots hdots).append (hmore.spans depth))
termination_by _ s => 2 * s.length + 1

theorem Element.spans : ∀ {t lex used ps u}, Element t lex used ps u →
    ∀ depth, Spans depth (lex :: used)
  | _, _, _, _, _, .word hopen hends h, _ => (spans_word hopen hends).append h.spans
  | _, _, _, _, _, .parentheses hopen h hclose, depth =>
    have ⟨_, hbranches⟩ := h.branches
    spans_brackets (by rw [hopen]; rfl) (hbranches.spans depth) (by rw [hclose]; rfl)
  | _, _, _, _, _, .brackets hopen h hclose, depth =>
    have ⟨_, hbranches⟩ := h.branches
    spans_brackets (by rw [hopen]; rfl) (hbranches.spans depth) (by rw [hclose]; rfl)
termination_by _ _ used => 2 * (used.length + 1)

end

/-- Every one of these sequences is read by itself, up to its end and with the options known after
the one before it. -/
inductive ReadApart :
    OptionTable → List (List Lexeme) → List (List Pattern) → OptionTable → Prop
  | nil {t : OptionTable} : ReadApart t [] [] t
  | cons {t : OptionTable} {s q u more qs v} : Yields (readSequence s t) q u [] →
      ReadApart u more qs v → ReadApart t (s :: more) (q :: qs) v

theorem Sequence.readApart (h : Sequence t s ps u) : Yields (readSequence s t) ps u [] := by
  have hend : StopsAt endsSequence [] := by
    intro lex hlex
    cases hlex
  have hread := h.yields [] hend
  rwa [List.append_nil] at hread

theorem Sequence.alternatives_eq (h : Sequence t s ps u) : alternatives 0 s = [s] := by
  have hspan := h.spans 0 []
  rw [List.append_nil] at hspan
  exact hspan.trans (by simp [alternatives])

/-- The sequences of a choice are its alternatives. -/
theorem Branches.readApart : ∀ {t s qs u}, Branches t s qs u → ReadApart t (alternatives 0 s) qs u
  | _, _, _, _, .last h => by
    rw [h.alternatives_eq]
    exact .cons h.readApart .nil
  | _, _, _, _, @Branches.more _ s _ _ bar rest _ _ h hbar hmore => by
    have hsplit : alternatives 0 (s ++ bar :: rest) = s :: alternatives 0 rest := by
      rw [h.spans 0, alternatives, if_pos ⟨rfl, hbar⟩]
      simp
    rw [hsplit]
    exact .cons h.readApart hmore.readApart

/-- The patterns, one after the other, match the whole command line. -/
def Accepts (tokens : List Token) (ps : List Pattern) : Prop :=
  (run tokens (.required ps)).matched.isSome = true

variable {tokens : List Token}

theorem accepts_iff_derives : Accepts tokens ps ↔
    ∃ ms, Derives tokens (.required ps) (everything tokens) [] ms :=
  settle_isSome_iff sound_empty (.required ps) (everything tokens)

theorem accepts_iff : Accepts tokens ps ↔
    ∃ ms, DerivesAll tokens false ps (everything tokens) [] ms := by
  refine accepts_iff_derives.trans ⟨?_, ?_⟩
  · rintro ⟨ms, ⟨⟩⟩
    exact ⟨ms, ‹_›⟩
  · rintro ⟨ms, h⟩
    exact ⟨ms, .required h⟩

theorem accepts_nil : Accepts tokens [] ↔ tokens = [] := by
  rw [accepts_iff]
  constructor
  · rintro ⟨ms, h⟩
    generalize hleft : everything tokens = left at h
    cases h
    exact List.length_eq_zero_iff.mp (List.range_eq_nil.mp hleft)
  · rintro rfl
    exact ⟨[], .nil⟩

theorem accepts_single {p : Pattern} : Accepts tokens [p] ↔
    ∃ ms, Derives tokens p (everything tokens) [] ms := by
  rw [accepts_iff]
  constructor
  · rintro ⟨ms, h⟩
    cases h with
    | cons h hnil =>
      cases hnil
      exact ⟨_, h⟩
  · rintro ⟨ms, h⟩
    exact ⟨ms ++ [], .cons h .nil⟩

theorem accepts_required : Accepts tokens [.required ps] ↔ Accepts tokens ps := by
  rw [accepts_single, accepts_iff_derives]

theorem accepts_either : Accepts tokens [.either ps] ↔ ∃ p ∈ ps, Accepts tokens [p] := by
  simp only [accepts_single]
  constructor
  · rintro ⟨ms, h⟩
    cases h with
    | either hp h => exact ⟨_, hp, ms, h⟩
  · rintro ⟨p, hp, ms, h⟩
    exact ⟨ms, .either hp h⟩

/-- A sequence counts as a branch unless it is empty. -/
theorem accepts_branch : (∃ b ∈ branch ps, Accepts tokens [b]) ↔ ps ≠ [] ∧ Accepts tokens ps := by
  match ps with
  | [] => simp [branch]
  | [p] => simp [branch]
  | p :: q :: ps => simp [branch, accepts_required]

theorem branch_eq_nil : branch ps = [] ↔ ps = [] := by
  match ps with
  | [] => simp [branch]
  | [p] => simp [branch]
  | p :: q :: ps => simp [branch]

theorem accepts_choose : Accepts tokens (choose ps) ↔
    (ps = [] ∧ tokens = []) ∨ ∃ p ∈ ps, Accepts tokens [p] := by
  match ps with
  | [] => simp [choose, accepts_nil]
  | [p] => simp [choose]
  | p :: q :: ps => simp [choose, accepts_either]

/-- A choice accepts what one of its sequences accepts; an empty one counts only if all are. -/
theorem accepts_choice (hqs : qs ≠ []) : Accepts tokens (choose (qs.flatMap branch)) ↔
    ∃ q ∈ qs, Accepts tokens q ∧ (q = [] → ∀ r ∈ qs, r = []) := by
  rw [accepts_choose, List.flatMap_eq_nil_iff]
  simp only [branch_eq_nil]
  constructor
  · rintro (⟨hall, rfl⟩ | ⟨p, hp, h⟩)
    · obtain ⟨q, hq⟩ := List.exists_mem_of_ne_nil qs hqs
      obtain rfl := hall q hq
      exact ⟨[], hq, accepts_nil.mpr rfl, fun _ => hall⟩
    · obtain ⟨q, hq, hp⟩ := List.mem_flatMap.mp hp
      obtain ⟨hne, hacc⟩ := accepts_branch.mp ⟨p, hp, h⟩
      exact ⟨q, hq, hacc, fun hnil => absurd hnil hne⟩
  · rintro ⟨q, hq, hacc, hall⟩
    by_cases hnil : q = []
    · subst hnil
      exact .inl ⟨hall rfl, accepts_nil.mp hacc⟩
    · obtain ⟨p, hp, h⟩ := accepts_branch.mpr ⟨hnil, hacc⟩
      exact .inr ⟨p, List.mem_flatMap.mpr ⟨q, hq, hp⟩, h⟩

theorem Choice.accepts (h : Choice t s ps u) : ∃ qs, ReadApart t (alternatives 0 s) qs u ∧
    ∀ tokens, Accepts tokens ps ↔
      ∃ q ∈ qs, Accepts tokens q ∧ (q = [] → ∀ other ∈ qs, other = []) := by
  cases h with
  | single h =>
    refine ⟨[ps], (Branches.last h).readApart, fun tokens => ?_⟩
    simp
  | @among _ used ps _ bar more qs _ h hbar hmore =>
    have hapart := (Branches.more h hbar hmore).readApart
    rw [← List.flatMap_cons]
    exact ⟨ps :: qs, hapart, fun tokens => accepts_choice (List.cons_ne_nil ps qs)⟩

/-- **A choice accepts the union of its alternatives**, except for those without any element: they
count only if there is no other. The choice that is read ends at a closing bracket or at the end,
and each alternative is read as it is by itself. So nothing is missing from the union exactly if
each alternative has an element, or if the choice accepts the empty command line in any case. -/
theorem readChoice_accepts {r : Readout s.length} (h : readChoice s t = .ok r) :
    ∃ used qs, s = used ++ r.rest ∧ StopsAt endsChoice r.rest ∧
      ReadApart t (alternatives 0 used) qs r.table ∧
      (∀ tokens, Accepts tokens r.patterns ↔
        ∃ q ∈ qs, Accepts tokens q ∧ (q = [] → ∀ other ∈ qs, other = [])) ∧
      ((∀ tokens, Accepts tokens r.patterns ↔ ∃ q ∈ qs, Accepts tokens q) ↔
        ([] ∈ qs → Accepts [] r.patterns)) := by
  obtain ⟨used, hchoice, hs, hstop⟩ := choice_of_yields s (yields_of_ok h rfl)
  obtain ⟨qs, hapart, hlaw⟩ := hchoice.accepts
  refine ⟨used, qs, hs, hstop, hapart, hlaw, fun h hnil => ?_, fun h tokens => ⟨fun hacc => ?_, ?_⟩⟩
  · exact (h []).mpr ⟨[], hnil, accepts_nil.mpr rfl⟩
  · obtain ⟨q, hq, hacc, -⟩ := (hlaw tokens).mp hacc
    exact ⟨q, hq, hacc⟩
  · rintro ⟨q, hq, hacc⟩
    by_cases hnil : q = []
    · subst hnil
      rw [accepts_nil.mp hacc]
      exact h hq
    · exact (hlaw tokens).mpr ⟨q, hq, hacc, fun heq => absurd heq hnil⟩

/-- The second of two alternatives, with two commands in it. -/
theorem readChoice_accepts_second :
    ∃ r, readChoice [⟨"a", 1, 1⟩, ⟨"|", 1, 3⟩, ⟨"b", 1, 5⟩, ⟨"c", 1, 7⟩] .empty = .ok r ∧
      ∃ used qs, ReadApart .empty (alternatives 0 used) qs r.table ∧
        ∃ q ∈ qs, Accepts [.plain "b", .plain "c"] q := by
  have hread : readChoice [⟨"a", 1, 1⟩, ⟨"|", 1, 3⟩, ⟨"b", 1, 5⟩, ⟨"c", 1, 7⟩] .empty =
      .ok ⟨[.either [.leaf (.command "a"),
        .required [.leaf (.command "b"), .leaf (.command "c")]]],
        OptionTable.empty, [], Nat.zero_le 4⟩ := by cbv
  obtain ⟨used, qs, -, -, hapart, hlaw, -⟩ := readChoice_accepts hread
  have haccepts : Accepts [.plain "b", .plain "c"] [.either [.leaf (.command "a"),
      .required [.leaf (.command "b"), .leaf (.command "c")]]] := by
    rw [Accepts, run_matched]
    decide +kernel
  obtain ⟨q, hq, hacc, -⟩ := (hlaw _).mp haccepts
  exact ⟨_, hread, used, qs, hapart, q, hq, hacc⟩

/-- An empty alternative beside a command: the empty command line is not accepted. -/
theorem empty_alternative_dropped :
    ∃ r, readChoice [⟨"|", 1, 1⟩, ⟨"a", 1, 3⟩] OptionTable.empty = .ok r ∧ r.rest = [] ∧
      alternatives 0 [⟨"|", 1, 1⟩, ⟨"a", 1, 3⟩] = [[], [⟨"a", 1, 3⟩]] ∧
      ReadApart OptionTable.empty [[], [⟨"a", 1, 3⟩]] [[], [.leaf (.command "a")]] r.table ∧
      ¬ ∀ tokens, Accepts tokens r.patterns ↔
        ∃ q ∈ [[], [.leaf (.command "a")]], Accepts tokens q := by
  refine ⟨⟨[.leaf (.command "a")], OptionTable.empty, [], Nat.zero_le 2⟩, by cbv, rfl, by decide,
    .cons ⟨Nat.zero_le 0, by cbv⟩ (.cons ⟨Nat.zero_le 1, by cbv⟩ .nil), fun h => ?_⟩
  have hlost : ¬ Accepts [] [.leaf (.command "a")] := by
    rw [Accepts, run_matched]
    decide +kernel
  exact hlost ((h []).mpr ⟨[], by simp, accepts_nil.mpr rfl⟩)

end Synopsis.Pattern
