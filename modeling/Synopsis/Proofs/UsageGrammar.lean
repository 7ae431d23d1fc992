import Synopsis.Proofs.UsageWord

/-!
# The grammar of usage lines

A choice is one or more sequences with bars between them, a sequence is a row of elements with or
without ellipses after them, and an element is a choice in brackets or a word. `Choice`, `Sequence`
and `Element` are this grammar, with the options known before and after and the patterns read. A
reader that succeeds has used a phrase of its kind and stopped where no more of it can follow; and
it reads every phrase that is followed so.
-/

namespace Synopsis.Pattern

variable {n : Nat} {t u v : OptionTable} {ps qs : List Pattern} {s after left rest : List Lexeme}
  {lex : Lexeme}

mutual

/-- **A choice**: a sequence, or several with bars between them. -/
inductive Choice : OptionTable → List Lexeme → List Pattern → OptionTable → Prop
  | single {t : OptionTable} {s ps u} : Sequence t s ps u → Choice t s ps u
  | among {t : OptionTable} {s ps u bar more qs v} : Sequence t s ps u → Lexeme.text bar = "|" →
      Branches u more qs v → Choice t (s ++ bar :: more) (choose (branch ps ++ qs.flatMap branch)) v

/-- One or more sequences with bars between them, and the patterns of each. -/
inductive Branches : OptionTable → List Lexeme → List (List Pattern) → OptionTable → Prop
  | last {t : OptionTable} {s ps u} : Sequence t s ps u → Branches t s [ps] u
  | more {t : OptionTable} {s ps u bar more qs v} : Sequence t s ps u → Lexeme.text bar = "|" →
      Branches u more qs v → Branches t (s ++ bar :: more) (ps :: qs) v

/-- Elements, an ellipsis after each of them or not. -/
inductive Sequence : OptionTable → List Lexeme → List Pattern → OptionTable → Prop
  | nil {t : OptionTable} : Sequence t [] [] t
  | cons {t : OptionTable} {lex s ps u more qs v} : Element t lex s ps u → Sequence u more qs v →
      Sequence t (lex :: (s ++ more)) (ps ++ qs) v
  | repeated {t : OptionTable} {lex s ps u dots more qs v} : Element t lex s ps u →
      Lexeme.text dots = "..." → Sequence u more qs v →
      Sequence t (lex :: (s ++ dots :: more)) (oneOrMore (group ps) :: qs) v

/-- A choice in parentheses or in brackets, or a word. -/
inductive Element : OptionTable → Lexeme → List Lexeme → List Pattern → OptionTable → Prop
  | word {t : OptionTable} {lex after ps u} : closing? (Lexeme.text lex) = none →
      endsSequence lex.text = false → Word t lex after ps u → Element t lex after ps u
  | parentheses {t : OptionTable} {opening s ps u closing} : Lexeme.text opening = "(" →
      Choice t s ps u → Lexeme.text closing = ")" →
      Element t opening (s ++ [closing]) [.required ps] u
  | brackets {t : OptionTable} {opening s ps u closing} : Lexeme.text opening = "[" →
      Choice t s ps u → Lexeme.text closing = "]" →
      Element t opening (s ++ [closing]) [.optional ps] u

end

/-- The first of the lexemes, if there is any, is one of those. -/
def StopsAt (stop : String → Bool) (left : List Lexeme) : Prop :=
  ∀ lex ∈ left.head?, stop lex.text = true

/-- The lexemes that end a choice. -/
def endsChoice (text : String) : Bool :=
  text ∈ [")", "]"]

theorem StopsAt.toChoice (h : StopsAt endsSequence left)
    (hbar : ∀ lex ∈ left.head?, lex.text ≠ "|") : StopsAt endsChoice left := by
  intro lex hlex
  have hends := h lex hlex
  have hne := hbar lex hlex
  simp only [endsSequence, List.mem_cons, List.not_mem_nil, or_false, decide_eq_true_eq] at hends
  simp only [endsChoice, List.mem_cons, List.not_mem_nil, or_false, decide_eq_true_eq]
  tauto

theorem withEllipsis_of_dots {r : Readout n} {dots : Lexeme} (hr : r.rest = dots :: rest)
    (hd : dots.text = "...") :
    (withEllipsis r).patterns = [oneOrMore (group r.patterns)] ∧
      (withEllipsis r).table = r.table ∧ (withEllipsis r).rest = rest := by
  unfold withEllipsis
  split
  next h => cases h.symm.trans hr
  next h =>
    obtain ⟨rfl, rfl⟩ := List.cons.inj (h.symm.trans hr)
    rw [if_pos hd]
    exact ⟨rfl, rfl, rfl⟩

theorem withEllipsis_of_other {r : Readout n} (h : ∀ lex ∈ r.rest.head?, lex.text ≠ "...") :
    withEllipsis r = r := by
  unfold withEllipsis
  split
  next => rfl
  next hr => exact if_neg (h _ (by rw [hr]; rfl))

theorem yields_readSequence_cons (hl : endsSequence lex.text = false) :
    Yields (readSequence (lex :: rest) t) ps u left ↔
      ∃ r, readElement lex rest t = .ok r ∧ ∃ qs,
        Yields (readSequence (withEllipsis r).rest (withEllipsis r).table) qs u left ∧
          ps = (withEllipsis r).patterns ++ qs := by
  rw [readSequence, if_neg (Bool.eq_false_iff.mp hl), yields_bind]
  simp only [yields_map]

theorem yields_readSequence_stop (h : StopsAt endsSequence s) :
    Yields (readSequence s t) ps u left ↔ [] = ps ∧ t = u ∧ s = left := by
  cases s with
  | nil => rw [readSequence, yields_pure]
  | cons lex rest => rw [readSequence, if_pos (h lex rfl), yields_pure]

theorem yields_readElement_word (h : closing? lex.text = none) :
    Yields (readElement lex rest t) ps u left ↔ Yields (readWord lex rest t) ps u left := by
  rw [readElement, h]

theorem yields_readElement_bracket {close : String} (h : closing? lex.text = some close) :
    Yields (readElement lex rest t) ps u left ↔
      ∃ qs bracket, Yields (readChoice rest t) qs u (bracket :: left) ∧ bracket.text = close ∧
        ps = [if lex.text = "(" then .required qs else .optional qs] := by
  rw [readElement, h]
  dsimp only
  rw [yields_bind]
  constructor
  · rintro ⟨inner, hinner, h⟩
    split at h
    next => exact absurd h not_yields_error
    next bracket after hr =>
      split at h
      next hclose =>
        obtain ⟨rfl, rfl, rfl⟩ := yields_pure.mp h
        exact ⟨inner.patterns, bracket, yields_of_ok hinner hr, hclose, rfl⟩
      next => exact absurd h not_yields_error
  · rintro ⟨qs, bracket, ⟨hb, hinner⟩, hclose, rfl⟩
    refine ⟨_, hinner, ?_⟩
    dsimp only
    rw [if_pos hclose]
    exact yields_pure.mpr ⟨rfl, rfl, rfl⟩

section

variable {one : List Pattern → List Pattern}
  {several : List Pattern → List Pattern → List Pattern} {mid later : List Lexeme} {bar : Lexeme}

theorem Readout.bounded_of_later (more : Readout later.length)
    (h : (bar :: later).length ≤ s.length) : more.rest.length ≤ s.length :=
  Nat.le_trans more.bounded (Nat.le_of_succ_le h)

/-- Reads a sequence and, if a bar follows, the branches after it. The readers of choices differ in
what they make of a sequence that stands alone, and of one before others. -/
def readBarred (one : List Pattern → List Pattern)
    (several : List Pattern → List Pattern → List Pattern) (s : List Lexeme) (t : OptionTable) :
    Except HelpError (Readout s.length) := do
  match ← readSequence s t with
  | ⟨qs, v, [], hle⟩ => return ⟨one qs, v, [], hle⟩
  | ⟨qs, v, bar :: later, hle⟩ =>
    if bar.text = "|" then
      let more ← readBranches later v
      return ⟨several qs more.patterns, more.table, more.rest, more.bounded_of_later hle⟩
    else return ⟨one qs, v, bar :: later, hle⟩

theorem readChoice_eq (s : List Lexeme) (t : OptionTable) :
    readChoice s t = readBarred id (fun qs rs => choose (branch qs ++ rs)) s t := by
  rw [readChoice, readBarred]
  refine congrArg (readSequence s t >>= ·) (funext fun first => ?_)
  obtain ⟨qs, v, left, hle⟩ := first
  cases left <;> rfl

theorem readBranches_eq (s : List Lexeme) (t : OptionTable) :
    readBranches s t = readBarred branch (fun qs rs => branch qs ++ rs) s t := by
  rw [readBranches, readBarred]
  refine congrArg (readSequence s t >>= ·) (funext fun first => ?_)
  obtain ⟨qs, v, left, hle⟩ := first
  cases left <;> rfl

theorem yields_readBarred_of_bar (h : Yields (readSequence s t) qs v (bar :: later))
    (hbar : bar.text = "|") : Yields (readBarred one several s t) ps u left ↔
      ∃ rs, Yields (readBranches later v) rs u left ∧ ps = several qs rs := by
  obtain ⟨_, h⟩ := h
  rw [readBarred, h, yields_bind_ok]
  dsimp only
  rw [if_pos hbar]
  exact yields_map (f := several qs)

theorem yields_readBarred_of_other (h : Yields (readSequence s t) qs v mid)
    (hbar : ∀ lex ∈ mid.head?, lex.text ≠ "|") :
    Yields (readBarred one several s t) ps u left ↔ one qs = ps ∧ v = u ∧ mid = left := by
  obtain ⟨_, h⟩ := h
  rw [readBarred, h, yields_bind_ok]
  cases mid with
  | nil => exact yields_pure
  | cons lex rest =>
    dsimp only
    rw [if_neg (hbar lex rfl)]
    exact yields_pure

theorem exists_readSequence_of_readBarred (h : Yields (readBarred one several s t) ps u left) :
    ∃ qs v mid, Yields (readSequence s t) qs v mid := by
  rw [readBarred, yields_bind] at h
  obtain ⟨first, hfirst, -⟩ := h
  exact ⟨_, _, _, yields_of_ok hfirst rfl⟩

/-- An error comes from the first sequence, or from the branches after a bar. -/
theorem readBarred_eq_error {e : HelpError} (h : readBarred one several s t = .error e) :
    readSequence s t = .error e ∨ ∃ qs v bar later,
      Yields (readSequence s t) qs v (bar :: later) ∧ readBranches later v = .error e := by
  rcases bind_eq_error.mp h with h | ⟨⟨qs, v, left, hle⟩, hfirst, h⟩
  · exact .inl h
  · cases left with
    | nil => cases h
    | cons bar later =>
      dsimp only at h
      split at h
      next =>
        rcases bind_eq_error.mp h with h | ⟨more, -, h⟩
        · exact .inr ⟨qs, v, bar, later, ⟨hle, hfirst⟩, h⟩
        · cases h
      next => cases h

theorem first_or_other (text : String) (mid : List Lexeme) :
    (∃ lex later, mid = lex :: later ∧ lex.text = text) ∨ ∀ lex ∈ mid.head?, lex.text ≠ text := by
  cases mid with
  | nil => exact .inr nofun
  | cons lex rest =>
    by_cases ht : lex.text = text
    · exact .inl ⟨lex, rest, rfl, ht⟩
    · refine .inr fun other hother => ?_
      obtain rfl := Option.some.inj hother
      exact ht

end

mutual

theorem choice_of_yields (s : List Lexeme) {t u : OptionTable} {ps : List Pattern}
    {left : List Lexeme} (h : Yields (readChoice s t) ps u left) :
    ∃ used, Choice t used ps u ∧ s = used ++ left ∧ StopsAt endsChoice left := by
  rw [readChoice_eq] at h
  obtain ⟨qs, v, mid, hfirst⟩ := exists_readSequence_of_readBarred h
  obtain ⟨used, hseq, rfl, hstop⟩ := sequence_of_yields s hfirst
  rcases first_or_other "|" mid with ⟨bar, later, rfl, hbar⟩ | hother
  · obtain ⟨rs, hmore, rfl⟩ := (yields_readBarred_of_bar hfirst hbar).mp h
    obtain ⟨parts, after, hbranches, rfl, rfl, hleft⟩ := branches_of_yields later hmore
    exact ⟨used ++ bar :: after, .among hseq hbar hbranches, by simp, hleft⟩
  · obtain ⟨rfl, rfl, rfl⟩ := (yields_readBarred_of_other hfirst hother).mp h
    exact ⟨used, .single hseq, rfl, hstop.toChoice hother⟩
termination_by (s.length, 3)

theorem branches_of_yields (s : List Lexeme) {t u : OptionTable} {ps : List Pattern}
    {left : List Lexeme} (h : Yields (readBranches s t) ps u left) :
    ∃ qs used, Branches t used qs u ∧ ps = qs.flatMap branch ∧ s = used ++ left ∧
      StopsAt endsChoice left := by
  rw [readBranches_eq] at h
  obtain ⟨qs, v, mid, hfirst⟩ := exists_readSequence_of_readBarred h
  obtain ⟨used, hseq, rfl, hstop⟩ := sequence_of_yields s hfirst
  rcases first_or_other "|" mid with ⟨bar, later, rfl, hbar⟩ | hother
  · obtain ⟨rs, hmore, rfl⟩ := (yields_readBarred_of_bar hfirst hbar).mp h
    obtain ⟨parts, after, hbranches, rfl, rfl, hleft⟩ := branches_of_yields later hmore
    exact ⟨qs :: parts, used ++ bar :: after, .more hseq hbar hbranches, rfl, by simp, hleft⟩
  · obtain ⟨rfl, rfl, rfl⟩ := (yields_readBarred_of_other hfirst hother).mp h
    exact ⟨[qs], used, .last hseq, by simp, rfl, hstop.toChoice hother⟩
termination_by (s.length, 2)

theorem sequence_of_yields (s : List Lexeme) {t u : OptionTable} {ps : List Pattern}
    {left : List Lexeme} (h : Yields (readSequence s t) ps u left) :
    ∃ used, Sequence t used ps u ∧ s = used ++ left ∧ StopsAt endsSequence left := by
  by_cases hs : StopsAt endsSequence s
  · obtain ⟨rfl, rfl, rfl⟩ := (yields_readSequence_stop hs).mp h
    exact ⟨[], .nil, rfl, hs⟩
  · cases s with
    | nil => exact absurd nofun hs
    | cons lex rest =>
      have hl : endsSequence lex.text = false := by
        refine Bool.eq_false_iff.mpr fun hl => hs fun other hother => ?_
        obtain rfl := Option.some.inj hother
        exact hl
      obtain ⟨r, hr, qs, hmore, rfl⟩ := (yields_readSequence_cons hl).mp h
      obtain ⟨used, helement, hrest⟩ := element_of_yields lex rest hl (yields_of_ok hr rfl)
      have hshorter : (withEllipsis r).rest.length < (lex :: rest).length :=
        Nat.lt_succ_of_le (withEllipsis r).bounded
      obtain ⟨after, hseq, hafter, hstop⟩ := sequence_of_yields _ hmore
      rcases first_or_other "..." r.rest with ⟨dots, later, hdots, htext⟩ | hother
      · obtain ⟨hpatterns, htable, hlater⟩ := withEllipsis_of_dots hdots htext
        rw [hpatterns]
        rw [htable] at hseq
        exact ⟨_, .repeated helement htext hseq, by simp [hrest, hdots, ← hlater, hafter], hstop⟩
      · rw [withEllipsis_of_other hother] at hseq hafter ⊢
        exact ⟨_, .cons helement hseq, by simp [hrest, hafter], hstop⟩
termination_by (s.length, 1)
decreasing_by
  · subst_vars
    exact Prod.Lex.right _ Nat.zero_lt_one
  · subst_vars
    exact Prod.Lex.left _ _ hshorter

theorem element_of_yields (lex : Lexeme) (rest : List Lexeme) {t u : OptionTable}
    {ps : List Pattern} {left : List Lexeme} (hl : endsSequence lex.text = false)
    (h : Yields (readElement lex rest t) ps u left) :
    ∃ used, Element t lex used ps u ∧ rest = used ++ left := by
  cases hc : closing? lex.text with
  | none =>
    obtain ⟨after, hw, hrest⟩ := word_of_yields ((yields_readElement_word hc).mp h)
    exact ⟨after, .word hc hl hw, hrest⟩
  | some close =>
    obtain ⟨qs, bracket, hinner, hclose, rfl⟩ := (yields_readElement_bracket hc).mp h
    obtain ⟨used, hchoice, rfl, -⟩ := choice_of_yields rest hinner
    unfold closing? at hc
    split at hc
    next hopen =>
      obtain rfl := Option.some.inj hc
      rw [if_pos hopen]
      exact ⟨used ++ [bracket], .parentheses hopen hchoice hclose, by simp⟩
    next hopen =>
      split at hc
      next hopen' =>
        obtain rfl := Option.some.inj hc
        rw [if_neg hopen]
        exact ⟨used ++ [bracket], .brackets hopen' hchoice hclose, by simp⟩
      next => exact nomatch hc
termination_by (rest.length + 1, 0)

end

theorem Word.ne_ellipsis (h : Word t lex after ps u) : lex.text ≠ "..." := by
  cases h with
  | shortcut hopt =>
    rw [hopt]
    decide
  | long hr _ => exact ne_of_toList hr (by simp)
  | cluster hr _ _ => exact ne_of_toList hr (by simp)
  | name hdots _ _ => exact hdots

theorem Element.starts (h : Element t lex s ps u) :
    endsSequence lex.text = false ∧ lex.text ≠ "..." := by
  cases h with
  | word _ hl hw => exact ⟨hl, hw.ne_ellipsis⟩
  | parentheses hopen _ _ => exact ⟨by rw [hopen]; decide, by rw [hopen]; decide⟩
  | brackets hopen _ _ => exact ⟨by rw [hopen]; decide, by rw [hopen]; decide⟩

theorem ne_ellipsis_of_endsSequence {text : String} (h : endsSequence text = true) :
    text ≠ "..." := by
  rintro rfl
  exact absurd h (by decide)

/-- No ellipsis stands where a sequence starts. -/
theorem Sequence.ne_ellipsis (h : Sequence t s ps u) (hleft : StopsAt endsSequence left) :
    ∀ lex ∈ (s ++ left).head?, lex.text ≠ "..." := by
  intro lex hlex
  cases h with
  | nil => exact ne_ellipsis_of_endsSequence (hleft lex hlex)
  | cons helement _ =>
    obtain rfl := Option.some.inj hlex
    exact helement.starts.2
  | repeated helement _ _ =>
    obtain rfl := Option.some.inj hlex
    exact helement.starts.2

theorem StopsAt.ne_bar (h : StopsAt endsChoice left) : ∀ lex ∈ left.head?, lex.text ≠ "|" := by
  intro lex hlex hbar
  have hends := h lex hlex
  rw [hbar] at hends
  exact absurd hends (by decide)

theorem StopsAt.toSequence (h : StopsAt endsChoice left) : StopsAt endsSequence left := by
  intro lex hlex
  have hends := h lex hlex
  simp only [endsChoice, List.mem_cons, List.not_mem_nil, or_false, decide_eq_true_eq] at hends
  simp only [endsSequence, List.mem_cons, List.not_mem_nil, or_false, decide_eq_true_eq]
  tauto

theorem stopsAt_bar {bar : Lexeme} (h : bar.text = "|") (later : List Lexeme) :
    StopsAt endsSequence (bar :: later) := by
  intro lex hlex
  obtain rfl := Option.some.inj hlex
  rw [h]
  decide

theorem stopsAt_closing {closing : Lexeme} (h : endsChoice closing.text = true)
    (later : List Lexeme) : StopsAt endsChoice (closing :: later) := by
  intro lex hlex
  obtain rfl := Option.some.inj hlex
  exact h

mutual

theorem Choice.yields : ∀ {t s ps u}, Choice t s ps u → ∀ left, StopsAt endsChoice left →
    Yields (readChoice (s ++ left) t) ps u left
  | _, _, _, _, .single h, left, hleft => by
    rw [readChoice_eq, yields_readBarred_of_other (h.yields left hleft.toSequence) hleft.ne_bar]
    exact ⟨rfl, rfl, rfl⟩
  | _, _, _, _, .among h hbar hmore, left, hleft => by
    rw [List.append_assoc, readChoice_eq]
    exact (yields_readBarred_of_bar (h.yields _ (stopsAt_bar hbar _)) hbar).mpr
      ⟨_, hmore.yields left hleft, rfl⟩

theorem Branches.yields : ∀ {t s qs u}, Branches t s qs u → ∀ left, StopsAt endsChoice left →
    Yields (readBranches (s ++ left) t) (qs.flatMap branch) u left
  | _, _, _, _, .last h, left, hleft => by
    rw [readBranches_eq, yields_readBarred_of_other (h.yields left hleft.toSequence) hleft.ne_bar]
    exact ⟨by simp, rfl, rfl⟩
  | _, _, _, _, .more h hbar hmore, left, hleft => by
    rw [List.append_assoc, readBranches_eq]
    exact (yields_readBarred_of_bar (h.yields _ (stopsAt_bar hbar _)) hbar).mpr
      ⟨_, hmore.yields left hleft, rfl⟩

theorem Sequence.yields : ∀ {t s ps u}, Sequence t s ps u → ∀ left,
    StopsAt endsSequence left → Yields (readSequence (s ++ left) t) ps u left
  | _, _, _, _, .nil, left, hleft => (yields_readSequence_stop hleft).mpr ⟨rfl, rfl, rfl⟩
  | _, _, _, _, @Sequence.cons _ _ _ _ _ more qs _ helement hmore, left, hleft => by
    rw [List.cons_append, List.append_assoc]
    obtain ⟨hb, hread⟩ := helement.yields (more ++ left)
    refine (yields_readSequence_cons helement.starts.1).mpr ⟨_, hread, qs, ?_⟩
    rw [withEllipsis_of_other (hmore.ne_ellipsis hleft)]
    exact ⟨hmore.yields left hleft, rfl⟩
  | _, _, _, _, @Sequence.repeated _ _ _ _ _ dots more qs _ helement hdots hmore, left, hleft => by
    rw [List.cons_append, List.append_assoc]
    obtain ⟨hb, hread⟩ := helement.yields (dots :: more ++ left)
    refine (yields_readSequence_cons helement.starts.1).mpr ⟨_, hread, qs, ?_⟩
    obtain ⟨hpatterns, htable, hrest⟩ := withEllipsis_of_dots (r := ⟨_, _, _, hb⟩) rfl hdots
    rw [hpatterns, htable, hrest]
    exact ⟨hmore.yields left hleft, rfl⟩

theorem Element.yields : ∀ {t lex used ps u}, Element t lex used ps u → ∀ left,
    Yields (readElement lex (used ++ left) t) ps u left
  | _, _, _, _, _, .word hc _ hw, left => (yields_readElement_word hc).mpr (hw.yields left)
  | _, _, _, _, _, @Element.parentheses _ _ _ ps _ closing hopen hchoice hclose, left => by
    refine (yields_readElement_bracket (by rw [hopen]; rfl)).mpr ⟨ps, closing, ?_, hclose, ?_⟩
    · rw [List.append_assoc]
      exact hchoice.yields _ (stopsAt_closing (by rw [hclose]; decide) left)
    · rw [if_pos hopen]
  | _, _, _, _, _, @Element.brackets _ _ _ ps _ closing hopen hchoice hclose, left => by
    refine (yields_readElement_bracket (by rw [hopen]; rfl)).mpr ⟨ps, closing, ?_, hclose, ?_⟩
    · rw [List.append_assoc]
      exact hchoice.yields _ (stopsAt_closing (by rw [hclose]; decide) left)
    · rw [if_neg (by rw [hopen]; decide)]

end

/-- The pattern of a usage line: what it consists of, with its shortcuts filled. -/
def line (declared : OptionTable) (ps : List Pattern) : Pattern :=
  required (fillAll (unnamed declared (required ps)) ps)

/-- **A line is accepted exactly if it is a choice from its start to its end.** -/
theorem readLine_eq_ok {declared : OptionTable} {p : Pattern} : readLine declared t s = .ok (p, u) ↔
    ∃ ps, Choice t s ps u ∧ p = line declared ps := by
  constructor
  · intro h
    obtain ⟨read, hread, h⟩ := bind_eq_ok.mp h
    split at h
    next => exact nomatch h
    next hrest =>
      obtain ⟨rfl, rfl⟩ := Prod.mk.inj (pure_eq_ok.mp h)
      obtain ⟨used, hchoice, hs, -⟩ := choice_of_yields s (yields_of_ok hread hrest)
      rw [List.append_nil] at hs
      exact ⟨read.patterns, hs ▸ hchoice, rfl⟩
  · rintro ⟨ps, hchoice, rfl⟩
    have hyields := hchoice.yields [] nofun
    rw [List.append_nil] at hyields
    obtain ⟨_, hread⟩ := hyields
    rw [readLine, hread]
    rfl

end Synopsis.Pattern
