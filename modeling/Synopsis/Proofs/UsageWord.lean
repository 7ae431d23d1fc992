import Synopsis.Proofs.OwnSpelling

/-!
# The words of a usage line

What the reader of a usage line makes of a single word, as relations: `LongWord` for a long option,
`Letters` for a cluster of short ones and `Word` for any word. Each of them relates the options
known before to the lexemes used, the patterns read and the options known after. The reader
succeeds on a word exactly when the relation holds of what it yields.
-/

namespace Synopsis.Pattern

/-- Reading succeeds with these patterns, with the table grown to `u`, and leaves these lexemes. -/
def Yields {n : Nat} (x : Except HelpError (Readout n)) (ps : List Pattern) (u : OptionTable)
    (left : List Lexeme) : Prop :=
  ∃ h, x = .ok ⟨ps, u, left, h⟩

variable {n : Nat} {x : Except HelpError (Readout n)} {t u v : OptionTable} {ps qs : List Pattern}
  {s after left rest : List Lexeme} {lex : Lexeme}

theorem yields_of_ok {r : Readout n} (h : x = .ok r) (hr : r.rest = left) :
    Yields x r.patterns r.table left := by
  subst hr
  exact ⟨r.bounded, h⟩

theorem yields_pure {r : Readout n} :
    Yields (.ok r) ps u left ↔ r.patterns = ps ∧ r.table = u ∧ r.rest = left := by
  constructor
  · rintro ⟨_, h⟩
    obtain rfl := Except.ok.inj h
    exact ⟨rfl, rfl, rfl⟩
  · rintro ⟨rfl, rfl, rfl⟩
    exact ⟨r.bounded, rfl⟩

theorem not_yields_error {e : HelpError} :
    ¬ Yields (.error e : Except HelpError (Readout n)) ps u left := by
  rintro ⟨_, h⟩
  exact nomatch h

theorem yields_bind {α : Type} {y : Except HelpError α} {f : α → Except HelpError (Readout n)} :
    Yields (y >>= f) ps u left ↔ ∃ a, y = .ok a ∧ Yields (f a) ps u left := by
  constructor
  · rintro ⟨hb, h⟩
    obtain ⟨a, ha, h⟩ := bind_eq_ok.mp h
    exact ⟨a, ha, hb, h⟩
  · rintro ⟨a, ha, hb, h⟩
    exact ⟨hb, bind_eq_ok.mpr ⟨a, ha, h⟩⟩

theorem yields_bind_ok {α : Type} {a : α} {f : α → Except HelpError (Readout n)} :
    Yields (.ok a >>= f) ps u left ↔ Yields (f a) ps u left := Iff.rfl

/-- Reading on, and putting together what was read. -/
theorem yields_map {m : Nat} {y : Except HelpError (Readout m)} {f : List Pattern → List Pattern}
    {h : ∀ r : Readout m, r.rest.length ≤ n} :
    Yields (do
      let more ← y
      return ⟨f more.patterns, more.table, more.rest, h more⟩) ps u left ↔
    ∃ qs, Yields y qs u left ∧ ps = f qs := by
  rw [yields_bind]
  constructor
  · rintro ⟨r, rfl, hr⟩
    obtain ⟨rfl, rfl, rfl⟩ := yields_pure.mp hr
    exact ⟨r.patterns, ⟨r.bounded, rfl⟩, rfl⟩
  · rintro ⟨qs, ⟨hb, rfl⟩, rfl⟩
    exact ⟨_, rfl, yields_pure.mpr ⟨rfl, rfl, rfl⟩⟩

/-- The lexemes that an option takes for its value: none for a flag or for a value in the same word,
else the placeholder that follows. -/
inductive Operand (o : OptionDef) : Bool → List Lexeme → Prop
  | flag : o.takesValue = false → Operand o false []
  | inline : o.takesValue = true → Operand o true []
  | placeholder {value : Lexeme} : o.takesValue = true → isPlaceholder value.text = true →
      Operand o false [value]

theorem afterPlaceholder_eq_ok_iff {form : String}
    {r : { r : List Lexeme // r.length ≤ rest.length }} :
    afterPlaceholder lex form rest = .ok r ↔
      ∃ value, rest = value :: r.1 ∧ isPlaceholder value.text = true := by
  cases rest with
  | nil => simp [afterPlaceholder]
  | cons value rest =>
    unfold afterPlaceholder
    by_cases hp : isPlaceholder value.text = true
    · simp [hp, Subtype.ext_iff]
    · simp [hp]

/-- Reading the value of an option that takes one. -/
theorem yields_operand {o : OptionDef} (hv : o.takesValue = true) {inline : Bool} {form : String} :
    Yields (n := rest.length)
      (if inline then .ok ⟨[ofOption o], t, rest, Nat.le_refl _⟩
      else do
        let r ← afterPlaceholder lex form rest
        return ⟨[ofOption o], t, r.1, r.2⟩) ps u left ↔
    ps = [ofOption o] ∧ u = t ∧ ∃ after, Operand o inline after ∧ rest = after ++ left := by
  cases inline with
  | true =>
    rw [if_pos rfl, yields_pure]
    constructor
    · rintro ⟨rfl, rfl, rfl⟩
      exact ⟨rfl, rfl, [], .inline hv, rfl⟩
    · rintro ⟨rfl, rfl, after, hop, rfl⟩
      cases hop
      exact ⟨rfl, rfl, rfl⟩
  | false =>
    rw [if_neg nofun, yields_bind]
    constructor
    · rintro ⟨r, hr, h⟩
      obtain ⟨rfl, rfl, rfl⟩ := yields_pure.mp h
      obtain ⟨value, hrest, hvalue⟩ := afterPlaceholder_eq_ok_iff.mp hr
      exact ⟨rfl, rfl, [value], .placeholder hv hvalue, hrest⟩
    · rintro ⟨rfl, rfl, after, hop, rfl⟩
      cases hop with
      | flag hf => exact nomatch hf.symm.trans hv
      | placeholder _ hvalue =>
        exact ⟨⟨left, Nat.le_succ _⟩, afterPlaceholder_eq_ok_iff.mpr ⟨_, rfl, hvalue⟩,
          yields_pure.mpr ⟨rfl, rfl, rfl⟩⟩

/-- The form of a long option: what stands before the first equals sign. -/
def longForm (lex : Lexeme) : String :=
  String.ofList (Text.splitAt '=' lex.text.toList).1

/-- The option is written with an equals sign. -/
def hasInline (lex : Lexeme) : Bool :=
  (Text.splitAt '=' lex.text.toList).2.isSome

/-- The option that a long form stands for if no option has it. -/
def freeLong (lex : Lexeme) : OptionDef :=
  { long := some (longForm lex), arity := if hasInline lex then 1 else 0 }

/-- **A long option in a usage line**: one that no known option has for its long form is added. -/
inductive LongWord (t : OptionTable) (lex : Lexeme) : List Lexeme → OptionDef → OptionTable → Prop
  | new : t.byLong (longForm lex) = [] → LongWord t lex [] (freeLong lex) (t.insert (freeLong lex))
  | known {o after} : (t.byLong (longForm lex)).head? = some o → Operand o (hasInline lex) after →
      LongWord t lex after o t

theorem readLong_eq : readLong lex rest t =
    match t.byLong (longForm lex) with
    | [] => .ok ⟨[ofOption (freeLong lex)], t.insert (freeLong lex), rest, Nat.le_refl _⟩
    | o :: _ =>
      if o.takesValue then
        if hasInline lex then .ok ⟨[ofOption o], t, rest, Nat.le_refl _⟩
        else do
          let r ← afterPlaceholder lex (longForm lex) rest
          return ⟨[ofOption o], t, r.1, r.2⟩
      else if hasInline lex then .error (faultAt lex (.valueRefused (longForm lex)))
      else .ok ⟨[ofOption o], t, rest, Nat.le_refl _⟩ := rfl

theorem longWord_of_yields (h : Yields (readLong lex rest t) ps u left) :
    ∃ o after, LongWord t lex after o u ∧ ps = [ofOption o] ∧ rest = after ++ left := by
  rw [readLong_eq] at h
  cases hb : t.byLong (longForm lex) with
  | nil =>
    rw [hb] at h
    obtain ⟨rfl, rfl, rfl⟩ := yields_pure.mp h
    exact ⟨_, [], .new hb, rfl, rfl⟩
  | cons o os =>
    have hfound : (t.byLong (longForm lex)).head? = some o := congrArg List.head? hb
    rw [hb] at h
    dsimp only at h
    split at h
    next hv =>
      obtain ⟨rfl, rfl, after, hop, hrest⟩ := (yields_operand hv).mp h
      exact ⟨o, after, .known hfound hop, rfl, hrest⟩
    next hv =>
      split at h
      next => exact absurd h not_yields_error
      next hi =>
        obtain ⟨rfl, rfl, rfl⟩ := yields_pure.mp h
        have hop : Operand o (hasInline lex) [] := by
          rw [Bool.eq_false_iff.mpr hi]
          exact .flag (Bool.eq_false_iff.mpr hv)
        exact ⟨o, [], .known hfound hop, rfl, rfl⟩

theorem LongWord.yields {o : OptionDef} (h : LongWord t lex after o u) (left : List Lexeme) :
    Yields (readLong lex (after ++ left) t) [ofOption o] u left := by
  rw [readLong_eq]
  cases h with
  | new hb =>
    rw [hb]
    exact yields_pure.mpr ⟨rfl, rfl, rfl⟩
  | known hk hop =>
    obtain ⟨os, hb⟩ := List.head?_eq_some_iff.mp hk
    rw [hb]
    dsimp only
    by_cases hv : o.takesValue = true
    · rw [if_pos hv]
      exact (yields_operand hv).mpr ⟨rfl, rfl, after, hop, rfl⟩
    · rw [if_neg hv]
      cases hi : hasInline lex with
      | true =>
        rw [hi] at hop
        cases hop with
        | inline hv' => exact absurd hv' hv
      | false =>
        rw [hi] at hop
        cases hop with
        | flag => exact yields_pure.mpr ⟨rfl, rfl, rfl⟩
        | placeholder hv' => exact absurd hv' hv

/-- **A cluster of short options in a usage line**, read from left to right: a letter that no known
option has is a flag of its own, and an option with a value is the last one. -/
inductive Letters : OptionTable → List Char → List Lexeme → List OptionDef → OptionTable → Prop
  | nil {t : OptionTable} : Letters t [] [] [] t
  | flag {t u v : OptionTable} {letter : Char} {letters after o os} : FlagIn t letter o u →
      Letters u letters after os v → Letters t (letter :: letters) after (o :: os) v
  | valued {t : OptionTable} {letter : Char} {letters after o} :
      t.byShort (String.ofList ['-', letter]) = [o] → o.takesValue = true →
      Operand o (!letters.isEmpty) after → Letters t (letter :: letters) after [o] t

theorem readShorts_nil : readShorts lex rest t [] = .ok ⟨[], t, rest, Nat.le_refl _⟩ := by
  rw [readShorts.eq_def]

theorem readShorts_cons {letter : Char} {letters : List Char} :
    readShorts lex rest t (letter :: letters) =
    match t.byShort (String.ofList ['-', letter]) with
    | [] => do
      let o : OptionDef := { short := some (String.ofList ['-', letter]) }
      let more ← readShorts lex rest (t.insert o) letters
      return ⟨ofOption o :: more.patterns, more.table, more.rest, more.bounded⟩
    | [o] =>
      if o.takesValue then
        if !letters.isEmpty then .ok ⟨[ofOption o], t, rest, Nat.le_refl _⟩
        else do
          let r ← afterPlaceholder lex (String.ofList ['-', letter]) rest
          return ⟨[ofOption o], t, r.1, r.2⟩
      else do
        let more ← readShorts lex rest t letters
        return ⟨ofOption o :: more.patterns, more.table, more.rest, more.bounded⟩
    | found =>
      .error (faultAt lex (.shortAmbiguous (String.ofList ['-', letter]) found.length)) := by
  rw [readShorts.eq_def]
  cases letters <;> rfl

theorem letters_of_yields {letters : List Char}
    (h : Yields (readShorts lex rest t letters) ps u left) :
    ∃ os after, Letters t letters after os u ∧ ps = os.map ofOption ∧ rest = after ++ left := by
  induction letters generalizing t ps with
  | nil =>
    rw [readShorts_nil] at h
    obtain ⟨rfl, rfl, rfl⟩ := yields_pure.mp h
    exact ⟨[], [], .nil, rfl, rfl⟩
  | cons letter letters ih =>
    rw [readShorts_cons] at h
    split at h
    next hb =>
      obtain ⟨qs, hmore, rfl⟩ := yields_map.mp h
      obtain ⟨os, after, hl, rfl, rfl⟩ := ih hmore
      exact ⟨_ :: os, after, .flag (.new hb rfl) hl, rfl, rfl⟩
    next o hb =>
      split at h
      next hv =>
        obtain ⟨rfl, rfl, after, hop, hrest⟩ := (yields_operand hv).mp h
        exact ⟨[o], after, .valued hb hv hop, rfl, hrest⟩
      next hv =>
        obtain ⟨qs, hmore, rfl⟩ := yields_map.mp h
        obtain ⟨os, after, hl, rfl, rfl⟩ := ih hmore
        exact ⟨o :: os, after, .flag (.known hb (Bool.eq_false_iff.mpr hv)) hl, rfl, rfl⟩
    next => exact absurd h not_yields_error

theorem Letters.yields {letters : List Char} {os : List OptionDef}
    (h : Letters t letters after os u) (left : List Lexeme) :
    Yields (readShorts lex (after ++ left) t letters) (os.map ofOption) u left := by
  induction h with
  | nil =>
    rw [readShorts_nil]
    exact yields_pure.mpr ⟨rfl, rfl, rfl⟩
  | flag hf _ ih =>
    rw [readShorts_cons]
    cases hf with
    | new hb ho =>
      subst ho
      rw [hb]
      exact yields_map.mpr ⟨_, ih, rfl⟩
    | known hb hv =>
      rw [hb]
      dsimp only
      rw [if_neg (Bool.eq_false_iff.mp hv)]
      exact yields_map.mpr ⟨_, ih, rfl⟩
  | valued hb hv hop =>
    rw [readShorts_cons, hb]
    dsimp only
    rw [if_pos hv]
    exact (yields_operand hv).mpr ⟨rfl, rfl, _, hop, rfl⟩

/-- The leaf of a word that is no option. -/
def wordLeaf (text : String) : Leaf :=
  if namesArgument text.toList then .argument text else .command text

theorem wordLeaf_marker : wordLeaf "--" = .command "--" := by decide

/-- **A word of a usage line**, together with the placeholder after it if it is an option that takes
one. -/
inductive Word (t : OptionTable) (lex : Lexeme) : List Lexeme → List Pattern → OptionTable → Prop
  | shortcut : lex.text = "options" → Word t lex [] [.shortcut []] t
  | long {first word after o u} : lex.text.toList = '-' :: '-' :: first :: word →
      LongWord t lex after o u → Word t lex after [ofOption o] u
  | cluster {first letters after os u} : lex.text.toList = '-' :: first :: letters → first ≠ '-' →
      Letters t (first :: letters) after os u → Word t lex after (os.map ofOption) u
  | name : lex.text ≠ "..." → lex.text ≠ "options" →
      (∀ first letters, lex.text.toList = '-' :: first :: letters → lex.text = "--") →
      Word t lex [] [.leaf (wordLeaf lex.text)] t

theorem word_of_yields (h : Yields (readWord lex rest t) ps u left) :
    ∃ after, Word t lex after ps u ∧ rest = after ++ left := by
  unfold readWord at h
  dsimp only at h
  split at h
  next => exact absurd h not_yields_error
  next hdots =>
    split at h
    next hopt =>
      obtain ⟨rfl, rfl, rfl⟩ := yields_pure.mp h
      exact ⟨[], .shortcut hopt, rfl⟩
    next hopt =>
      split at h
      next first word hr =>
        obtain ⟨o, after, hw, rfl, hrest⟩ := longWord_of_yields h
        exact ⟨after, .long hr hw, hrest⟩
      next hr =>
        obtain ⟨rfl, rfl, rfl⟩ := yields_pure.mp h
        have hmarker := Conventions.toList_eq_marker.mp hr
        have hleaf : Leaf.command lex.text = wordLeaf lex.text := by rw [hmarker, wordLeaf_marker]
        rw [hleaf]
        exact ⟨[], .name hdots hopt fun _ _ _ => hmarker, rfl⟩
      next first letters hlong hmarker hr =>
        have hfirst : first ≠ '-' := by
          rintro rfl
          cases letters with
          | nil => exact hmarker rfl rfl
          | cons second letters => exact hlong _ _ rfl rfl
        obtain ⟨os, after, hl, rfl, hrest⟩ := letters_of_yields h
        exact ⟨after, .cluster hr hfirst hl, hrest⟩
      next hlong hmarker hcluster =>
        obtain ⟨rfl, rfl, rfl⟩ := yields_pure.mp h
        exact ⟨[], .name hdots hopt fun first letters hr => absurd hr (hcluster first letters), rfl⟩

theorem ne_of_toList {text other : String} {word : List Char} (h : text.toList = word)
    (hne : other.toList ≠ word) : text ≠ other := fun heq => hne (heq ▸ h)

theorem Word.yields (h : Word t lex after ps u) (left : List Lexeme) :
    Yields (readWord lex (after ++ left) t) ps u left := by
  unfold readWord
  cases h with
  | shortcut hopt =>
    rw [hopt]
    exact yields_pure.mpr ⟨rfl, rfl, rfl⟩
  | long hr hw =>
    dsimp only
    rw [if_neg (ne_of_toList hr (by simp)), if_neg (ne_of_toList hr (by simp)), hr]
    exact hw.yields left
  | cluster hr hfirst hl =>
    dsimp only
    rw [if_neg (ne_of_toList hr (by simp)), if_neg (ne_of_toList hr (by simp)), hr]
    split
    next heq => exact absurd (List.cons.inj (List.cons.inj heq).2).1 hfirst
    next heq => exact absurd (List.cons.inj (List.cons.inj heq).2).1 hfirst
    next heq =>
      obtain ⟨rfl, rfl⟩ := List.cons.inj (List.cons.inj heq).2
      exact hl.yields left
    next hcluster => exact absurd rfl (hcluster _ _)
  | name hdots hopt hplain =>
    dsimp only
    rw [if_neg hdots, if_neg hopt]
    split
    next hr =>
      rw [hplain _ _ hr] at hr
      exact nomatch hr
    next hr =>
      rw [Conventions.toList_eq_marker.mp hr]
      exact yields_pure.mpr ⟨by rw [wordLeaf_marker], rfl, rfl⟩
    next hmarker hr =>
      rw [hplain _ _ hr] at hr
      obtain ⟨rfl, rfl⟩ := List.cons.inj (List.cons.inj hr).2
      exact absurd rfl (hmarker rfl)
    next => exact yields_pure.mpr ⟨rfl, rfl, rfl⟩

end Synopsis.Pattern
