import Synopsis.Grammar
import Synopsis.Proofs.UsageGrammar

/-!
# The faults of usage lines

A usage line that is no phrase of the grammar is refused for a fault of one of its own lexemes, and
the error stands where that lexeme does. `AtFault` says which faults a lexeme can have. So the
reading of usage lines comes to one of two ends: all of them are phrases of the grammar, each read
with the options known after the one before, or one of them is the first that is not, and it is
blamed.
-/

namespace Synopsis

namespace Pattern

variable {t u declared : OptionTable} {ps : List Pattern}
  {s used after left rest : List Lexeme} {lex : Lexeme} {fault : Fault} {e : HelpError}

/-- **What a lexeme can be blamed for.** -/
inductive AtFault (lex : Lexeme) : Fault → Prop
  | unmatched {close : String} : closing? lex.text = some close →
      AtFault lex (.unmatched lex.text)
  | unexpected : endsChoice lex.text = true → AtFault lex (.unexpected lex.text)
  | danglingEllipsis : lex.text = "..." → AtFault lex .danglingEllipsis
  | valueRefused : hasInline lex = true → AtFault lex (.valueRefused (longForm lex))
  | valueMissing : hasInline lex = false → AtFault lex (.valueMissing (longForm lex))
  | letterValueMissing {letter : Char} : letter ∈ lex.text.toList →
      AtFault lex (.valueMissing (String.ofList ['-', letter]))
  | letterAmbiguous {letter : Char} {n : Nat} : letter ∈ lex.text.toList → 1 < n →
      AtFault lex (.shortAmbiguous (String.ofList ['-', letter]) n)

theorem AtFault.isChecked (h : AtFault lex fault) : fault.isChecked = true := by
  cases h <;> rfl

/-- The error is a fault of one of the lexemes, at its place. -/
def Blames (s : List Lexeme) (e : HelpError) : Prop :=
  ∃ lex ∈ s, ∃ fault, AtFault lex fault ∧ e = faultAt lex fault

theorem blames_faultAt (h : lex ∈ s) (hf : AtFault lex fault) : Blames s (faultAt lex fault) :=
  ⟨lex, h, fault, hf, rfl⟩

theorem Blames.of_subset (h : Blames left e) (hs : left ⊆ s) : Blames s e := by
  obtain ⟨lex, hlex, hfault⟩ := h
  exact ⟨lex, hs hlex, hfault⟩

theorem afterPlaceholder_error {form : String} (h : afterPlaceholder lex form rest = .error e) :
    e = faultAt lex (.valueMissing form) := by
  cases rest with
  | nil => exact (Except.error.inj h).symm
  | cons value rest =>
    unfold afterPlaceholder at h
    dsimp only at h
    split at h
    · exact nomatch h
    · exact (Except.error.inj h).symm

theorem readLong_error (h : readLong lex rest t = .error e) : Blames (lex :: rest) e := by
  rw [readLong_eq] at h
  split at h
  next => exact nomatch h
  next o os _ =>
    split at h
    next =>
      split at h
      next => exact nomatch h
      next hinline =>
        rcases bind_eq_error.mp h with h | ⟨r, -, h⟩
        · rw [afterPlaceholder_error h]
          exact blames_faultAt List.mem_cons_self (.valueMissing (Bool.eq_false_iff.mpr hinline))
        · exact nomatch h
    next =>
      split at h
      next hinline =>
        rw [← Except.error.inj h]
        exact blames_faultAt List.mem_cons_self (.valueRefused hinline)
      next => exact nomatch h

theorem one_lt_length {α : Type} {l : List α} (hnone : l ≠ []) (hone : ∀ a, l ≠ [a]) :
    1 < l.length := by
  have hpos := List.length_pos_iff.mpr hnone
  have hne : l.length ≠ 1 := fun hlength => by
    obtain ⟨a, ha⟩ := List.length_eq_one_iff.mp hlength
    exact hone a ha
  omega

theorem readShorts_error {letters : List Char} (hletters : letters ⊆ lex.text.toList)
    (h : readShorts lex rest t letters = .error e) : Blames (lex :: rest) e := by
  induction letters generalizing t with
  | nil =>
    rw [readShorts_nil] at h
    exact nomatch h
  | cons letter letters ih =>
    obtain ⟨hletter, hmore⟩ := List.cons_subset.mp hletters
    rw [readShorts_cons] at h
    split at h
    next =>
      rcases bind_eq_error.mp h with h | ⟨r, -, h⟩
      · exact ih hmore h
      · exact nomatch h
    next o _ =>
      split at h
      next =>
        split at h
        next => exact nomatch h
        next =>
          rcases bind_eq_error.mp h with h | ⟨r, -, h⟩
          · rw [afterPlaceholder_error h]
            exact blames_faultAt List.mem_cons_self (.letterValueMissing hletter)
          · exact nomatch h
      next =>
        rcases bind_eq_error.mp h with h | ⟨r, -, h⟩
        · exact ih hmore h
        · exact nomatch h
    next found hnone hone =>
      rw [← Except.error.inj h]
      exact blames_faultAt List.mem_cons_self
        (.letterAmbiguous hletter (one_lt_length hnone hone))

theorem readWord_error (h : readWord lex rest t = .error e) : Blames (lex :: rest) e := by
  unfold readWord at h
  dsimp only at h
  split at h
  next hdots =>
    rw [← Except.error.inj h]
    exact blames_faultAt List.mem_cons_self (.danglingEllipsis hdots)
  next =>
    split at h
    next => exact nomatch h
    next =>
      split at h
      next => exact readLong_error h
      next => exact nomatch h
      next first letters _ _ hr =>
        refine readShorts_error ?_ h
        rw [hr]
        exact List.subset_cons_self '-' (first :: letters)
      next => exact nomatch h

theorem withEllipsis_subset {n : Nat} (r : Readout n) : (withEllipsis r).rest ⊆ r.rest := by
  rcases first_or_other "..." r.rest with ⟨dots, later, hdots, htext⟩ | hother
  · obtain ⟨-, -, hlater⟩ := withEllipsis_of_dots hdots htext
    rw [hlater, hdots]
    exact List.subset_cons_self dots later
  · rw [withEllipsis_of_other hother]
    exact List.Subset.refl _

-- The mutual induction follows the readers: each goes on with what the one before it left, which is
-- part of the lexemes it started with.
mutual

theorem readBarred_error {one : List Pattern → List Pattern}
    {several : List Pattern → List Pattern → List Pattern} (s : List Lexeme) {t : OptionTable}
    (h : readBarred one several s t = .error e) : Blames s e := by
  rcases readBarred_eq_error h with h | ⟨qs, v, bar, later, hfirst, h⟩
  · exact readSequence_error s h
  · obtain ⟨used, -, hs, -⟩ := sequence_of_yields s hfirst
    have hlater : later ⊆ s := by simp [hs]
    rw [readBranches_eq] at h
    exact (readBarred_error later h).of_subset hlater
termination_by (s.length, 2)

theorem readSequence_error (s : List Lexeme) {t : OptionTable} (h : readSequence s t = .error e) :
    Blames s e := by
  cases s with
  | nil =>
    rw [readSequence] at h
    exact nomatch h
  | cons lex rest =>
    rw [readSequence] at h
    split at h
    next => exact nomatch h
    next hl =>
      rcases bind_eq_error.mp h with h | ⟨r, hr, h⟩
      · exact readElement_error lex rest h
      · rcases bind_eq_error.mp h with h | ⟨more, -, h⟩
        · obtain ⟨used, -, hrest⟩ :=
            element_of_yields lex rest (Bool.eq_false_iff.mpr hl) (yields_of_ok hr rfl)
          have hlater : (withEllipsis r).rest ⊆ lex :: rest :=
            List.Subset.trans (withEllipsis_subset r) (by simp [hrest])
          have hshorter : (withEllipsis r).rest.length < (lex :: rest).length :=
            Nat.lt_succ_of_le (withEllipsis r).bounded
          exact (readSequence_error _ h).of_subset hlater
        · exact nomatch h
termination_by (s.length, 1)
decreasing_by
  · subst_vars
    exact Prod.Lex.right _ Nat.zero_lt_one
  · subst_vars
    exact Prod.Lex.left _ _ hshorter

theorem readElement_error (lex : Lexeme) (rest : List Lexeme) {t : OptionTable}
    (h : readElement lex rest t = .error e) : Blames (lex :: rest) e := by
  rw [readElement] at h
  split at h
  next => exact readWord_error h
  next close hclose =>
    rcases bind_eq_error.mp h with h | ⟨inner, -, h⟩
    · rw [readChoice_eq] at h
      exact (readBarred_error rest h).of_subset (List.subset_cons_self lex rest)
    · split at h
      next =>
        rw [← Except.error.inj h]
        exact blames_faultAt List.mem_cons_self (.unmatched hclose)
      next =>
        split at h
        next => exact nomatch h
        next =>
          rw [← Except.error.inj h]
          exact blames_faultAt List.mem_cons_self (.unmatched hclose)
termination_by (rest.length + 1, 0)

end

/-- A word stands for something. -/
theorem Word.ne_nil (h : Word t lex after ps u) : ps ≠ [] := by
  cases h with
  | shortcut | long | name => exact List.cons_ne_nil _ _
  | cluster _ _ hl => cases hl <;> exact List.cons_ne_nil _ _

/-- **An element stands for something**, so there is something that an ellipsis can repeat. -/
theorem readElement_ne_nil (h : Yields (readElement lex rest t) ps u left) : ps ≠ [] := by
  cases hc : closing? lex.text with
  | none =>
    obtain ⟨after, hw, -⟩ := word_of_yields ((yields_readElement_word hc).mp h)
    exact hw.ne_nil
  | some close =>
    obtain ⟨qs, bracket, -, -, rfl⟩ := (yields_readElement_bracket hc).mp h
    exact List.cons_ne_nil _ _

/-- An option that a long word adds can be written. -/
theorem isNamed_freeLong {first : Char} {word : List Char}
    (h : lex.text.toList = '-' :: '-' :: first :: word) : (freeLong lex).isNamed = true := by
  obtain ⟨tail, htail⟩ :=
    splitAt_dashed (Prod.eta (Text.splitAt '=' ('-' :: '-' :: first :: word))).symm
  have hne : longForm lex ≠ "" := by
    rw [longForm, h, htail]
    exact OptionTable.ofList_ne_empty
  simp [OptionDef.isNamed, OptionDef.long?, freeLong, hne]

/-- An option that a letter adds can be written. -/
theorem isNamed_letter (letter : Char) :
    OptionDef.isNamed { short := some (String.ofList ['-', letter]) } = true := by
  simp [OptionDef.isNamed, OptionDef.short?]

/-- A line that is not accepted is blamed. -/
theorem readLine_error (h : readLine declared t s = .error e) : Blames s e := by
  rcases bind_eq_error.mp h with h | ⟨read, hread, h⟩
  · rw [readChoice_eq] at h
    exact readBarred_error s h
  · split at h
    next lex rest hrest =>
      obtain ⟨used, -, hs, hstops⟩ := choice_of_yields s (yields_of_ok hread hrest)
      rw [← Except.error.inj h]
      exact blames_faultAt (by simp [hs]) (.unexpected (hstops lex rfl))
    next => exact nomatch h

/-- **Lines of the grammar**, each with the options known after the one before. -/
inductive Lines : OptionTable → List (List Lexeme) → List (List Pattern) → OptionTable → Prop
  | nil {t : OptionTable} : Lines t [] [] t
  | cons {t : OptionTable} {s ps u ss pss v} : Choice t s ps u → Lines u ss pss v →
      Lines t (s :: ss) (ps :: pss) v

/-- **A line is to blame**: those before it are lines of the grammar, and it is none. -/
inductive Stops : OptionTable → List (List Lexeme) → List (List Pattern) → List Lexeme → Prop
  | here {t : OptionTable} {s ss} : (∀ ps u, ¬ Choice t s ps u) → Stops t (s :: ss) [] s
  | later {t : OptionTable} {s ps u ss pss bad} : Choice t s ps u → Stops u ss pss bad →
      Stops t (s :: ss) (ps :: pss) bad

end Pattern

open Pattern (Lines Stops Blames AtFault Choice)

variable {declared t u : OptionTable} {ss : List (List Lexeme)} {pss : List (List Pattern)}

theorem readLines_of_lines (h : Lines t ss pss u) :
    readLines declared t ss = ⟨pss.map (Pattern.line declared), .ok u⟩ := by
  induction h with
  | nil => rfl
  | cons hchoice _ ih =>
    rw [readLines, Pattern.readLine_eq_ok.mpr ⟨_, hchoice, rfl⟩]
    dsimp only
    rw [ih]
    rfl

/-- All lines are read, or one of them is to blame. -/
theorem readLines_cases (declared t : OptionTable) (ss : List (List Lexeme)) :
    (∃ pss u, Lines t ss pss u) ∨
      ∃ pss bad e, Stops t ss pss bad ∧ Blames bad e ∧
        readLines declared t ss = ⟨pss.map (Pattern.line declared), .error e⟩ := by
  induction ss generalizing t with
  | nil => exact .inl ⟨[], t, .nil⟩
  | cons s ss ih =>
    cases hline : Pattern.readLine declared t s with
    | error e =>
      refine .inr ⟨[], s, e, .here fun ps u hchoice => ?_, Pattern.readLine_error hline, ?_⟩
      · exact nomatch hline.symm.trans (Pattern.readLine_eq_ok.mpr ⟨ps, hchoice, rfl⟩)
      · rw [readLines, hline]
        rfl
    | ok read =>
      obtain ⟨p, u⟩ := read
      obtain ⟨ps, hchoice, rfl⟩ := Pattern.readLine_eq_ok.mp hline
      rcases ih u with ⟨pss, v, hmore⟩ | ⟨pss, bad, e, hmore, hblames, hread⟩
      · exact .inl ⟨ps :: pss, v, .cons hchoice hmore⟩
      · refine .inr ⟨ps :: pss, bad, e, .later hchoice hmore, hblames, ?_⟩
        rw [readLines, hline]
        dsimp only
        rw [hread]
        rfl

/-- What usage lines are read as: the choice between them, and the options known at the end. -/
def readUsage (declared : OptionTable) (ss : List (List Lexeme)) :
    Except HelpError (Pattern × OptionTable) :=
  (readLines declared declared ss).result.map fun u =>
    (.either (readLines declared declared ss).lines, u)

/-- A help text has the pattern and the options that its usage lines are read as. -/
theorem grammar_ofHelp {source : String} {usage : Usage} (hu : Usage.read source = .ok usage)
    (hd : OptionTable.read source = .ok declared) :
    Grammar.ofHelp source = (readUsage declared usage.lines).map fun (pattern, options) =>
      ⟨source, usage.body.text, usage.program.text, pattern, options, declared⟩ := by
  rw [Grammar.ofHelp, Compilation.ofHelp, hu, hd, readUsage]
  dsimp only
  cases (readLines declared declared usage.lines).result <;> rfl

theorem readUsage_eq_ok {p : Pattern} : readUsage declared ss = .ok (p, u) ↔
    ∃ pss, Lines declared ss pss u ∧ p = .either (pss.map (Pattern.line declared)) := by
  constructor
  · intro h
    rcases readLines_cases declared declared ss with ⟨pss, v, hlines⟩ | ⟨pss, bad, e, -, -, hread⟩
    · rw [readUsage, readLines_of_lines hlines] at h
      obtain ⟨rfl, rfl⟩ := Prod.mk.inj (Except.ok.inj h)
      exact ⟨pss, hlines, rfl⟩
    · rw [readUsage, hread] at h
      exact nomatch h
  · rintro ⟨pss, hlines, rfl⟩
    rw [readUsage, readLines_of_lines hlines]
    rfl

/-- **Usage lines are read exactly by their grammar, and the right place is blamed.** The reading
succeeds exactly if all lines are lines of the grammar, and makes a sequence of each. Otherwise one
lexeme of the first line that is none is blamed, for a fault that it has. Nothing fails by accident:
a line is taken in whenever it is a choice from its start to its end, an ellipsis has something to
repeat, and the options that are added can be written. -/
theorem readUsage_accepts_or_blames (declared : OptionTable) (ss : List (List Lexeme)) :
    (∀ p u, readUsage declared ss = .ok (p, u) ↔
      ∃ pss, Lines declared ss pss u ∧ p = .either (pss.map (Pattern.line declared))) ∧
    (∀ e, readUsage declared ss = .error e → ∃ pss bad, Stops declared ss pss bad ∧
      ∃ lex ∈ bad, AtFault lex e.fault ∧ e.fault.isChecked = true ∧
        e.line = some (lex.line : Int) ∧ e.column = some lex.column) ∧
    (∀ t s, (∃ p u, Pattern.readLine declared t s = .ok (p, u)) ↔ ∃ ps u, Choice t s ps u) ∧
    (∀ lex rest t r, Pattern.readElement lex rest t = .ok r → r.patterns ≠ []) ∧
    (∀ lex first word, lex.text.toList = '-' :: '-' :: first :: word →
      (Pattern.freeLong lex).isNamed = true) ∧
    ∀ letter, OptionDef.isNamed { short := some (String.ofList ['-', letter]) } = true := by
  refine ⟨fun p u => readUsage_eq_ok, fun e h => ?_, fun t s => ⟨?_, ?_⟩,
    fun lex rest t r h => Pattern.readElement_ne_nil (Pattern.yields_of_ok h rfl),
    fun lex _ _ h => Pattern.isNamed_freeLong h, Pattern.isNamed_letter⟩
  · rcases readLines_cases declared declared ss with
      ⟨pss, v, hlines⟩ | ⟨pss, bad, e', hstops, hblames, hread⟩
    · rw [readUsage, readLines_of_lines hlines] at h
      exact nomatch h
    · rw [readUsage, hread] at h
      obtain rfl := Except.error.inj h
      obtain ⟨lex, hlex, fault, hfault, rfl⟩ := hblames
      exact ⟨pss, bad, hstops, lex, hlex, hfault, hfault.isChecked, rfl, rfl⟩
  · rintro ⟨p, u, h⟩
    obtain ⟨ps, hchoice, -⟩ := Pattern.readLine_eq_ok.mp h
    exact ⟨ps, u, hchoice⟩
  · rintro ⟨ps, u, hchoice⟩
    exact ⟨_, u, Pattern.readLine_eq_ok.mpr ⟨ps, hchoice, rfl⟩⟩

/-- A bracket that the second line leaves open. -/
example : readUsage .empty [[⟨"add", 1, 12⟩], [⟨"(", 2, 12⟩, ⟨"rm", 2, 13⟩]] =
    .error (.inLine (.unmatched "(") 2 12) := by
  cbv

end Synopsis
