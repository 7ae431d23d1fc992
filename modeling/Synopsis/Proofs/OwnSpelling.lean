import Synopsis.Description
import Synopsis.Pattern.Reader
import Synopsis.Proofs.InStep
import Synopsis.Proofs.Reading

/-!
# A usage line as a command line

Take the words of a flat usage line, one without brackets, bars, ellipses and markers, for the
arguments of a command line. The two are read by different rules: a usage line adds the options that
it does not know, a command line looks them up in the table as it has grown in the end. Each word is
nevertheless read `Alike`, into leaves and into tokens that suit them, since growing keeps what a
form named before. So the line matches its own words, leaf by leaf.
-/

namespace Synopsis

open OptionTable (IsDashed Extends)

namespace Description

theorem Forms.add_dashed {f : Forms} (h : IsDashed f.long) (word : List Char) :
    IsDashed (f.add word).long := by
  unfold Forms.add
  split
  · intro form hform
    obtain rfl := Option.some.inj hform
    exact ⟨_, String.toList_ofList⟩
  · exact h
  · exact h

theorem forms_dashed (s : List Char) : IsDashed (forms s).long := by
  unfold forms
  generalize Text.words (s.map partWords) = words
  have hnone : IsDashed ({} : Forms).long := nofun
  generalize ({} : Forms) = f at hnone
  induction words generalizing f with
  | nil => exact hnone
  | cons word words ih => exact ih _ (Forms.add_dashed hnone word)

theorem read_dashed {entry : List Char} {line : Option Int} {o : OptionDef}
    (h : read entry line = .ok o) : IsDashed o.long := by
  unfold read at h
  generalize (Text.cut? [' ', ' '] (Text.trim entry)).getD (Text.trim entry, []) = cut at h
  obtain ⟨named, prose⟩ := cut
  dsimp only at h
  generalize (if (forms named).valued then (1 : Int) else 0) = arity at h
  split at h
  · exact nomatch h
  · split at h
    · obtain rfl := Except.ok.inj h
      exact forms_dashed named
    · exact nomatch h

end Description

theorem OptionTable.read_dashed {source : String} {declared : OptionTable}
    (h : OptionTable.read source = .ok declared) : declared.LongFormsDashed := by
  obtain ⟨options, hoptions, h⟩ := bind_eq_ok.mp h
  obtain rfl := pure_eq_ok.mp h
  refine longFormsDashed_ofList fun o ho => ?_
  obtain ⟨entry, -, hentry⟩ := mem_of_mapM_eq_ok hoptions ho
  exact Description.read_dashed hentry

namespace Pattern

open Conventions (Valued remainder)
open Matching (Suits)

variable {table : OptionTable} {lex : Lexeme} {rest : List Lexeme} {n : Nat}

/-- The patterns read are leaves, and the options known have grown from those in `table`. With all
of these options a command line is read, as `reads` says, into tokens that suit the leaves. -/
structure Alike (table : OptionTable) (r : Readout n) (left : List Lexeme) (leaves : List Leaf)
    (tokens : List Token) (reads : Conventions → Prop) : Prop where
  patterns : r.patterns = leaves.map .leaf
  suits : List.Forall₂ Suits leaves tokens
  rest : r.rest = left
  dashed : r.table.LongFormsDashed
  grown : table.Extends r.table
  reads : ∀ c : Conventions, c.optionsFirst = false → r.table.Extends c.options → reads c

/-- The text is a cluster of short options with another dash in it. -/
def isDashedCluster (text : String) : Bool :=
  match text.toList with
  | '-' :: first :: letters => first != '-' && letters.contains '-'
  | _ => false

/-- **A word that is read alike in both places**: no bracket, bar or ellipsis, not the marker, not
the word for the options of the line, and no cluster with another dash in it. -/
structure IsFlat (lex : Lexeme) : Prop where
  delimiter : isDelimiter lex.text = false
  shortcut : lex.text ≠ "options"
  marker : lex.text ≠ "--"
  cluster : isDashedCluster lex.text = false

instance (lex : Lexeme) : Decidable (IsFlat lex) :=
  decidable_of_iff (isDelimiter lex.text = false ∧ lex.text ≠ "options" ∧ lex.text ≠ "--" ∧
      isDashedCluster lex.text = false)
    ⟨fun ⟨hd, hs, hm, hc⟩ => ⟨hd, hs, hm, hc⟩,
      fun h => ⟨h.delimiter, h.shortcut, h.marker, h.cluster⟩⟩

theorem IsFlat.letters {first : Char} {letters : List Char} (h : IsFlat lex)
    (hr : lex.text.toList = '-' :: first :: letters) (hfirst : first ≠ '-') :
    '-' ∉ first :: letters := by
  have hc : (first != '-' && letters.contains '-') = false := by
    have hcluster := h.cluster
    unfold isDashedCluster at hcluster
    rwa [hr] at hcluster
  rw [bne_iff_ne.mpr hfirst, Bool.true_and] at hc
  rw [List.mem_cons, not_or]
  exact ⟨fun heq => hfirst heq.symm, fun hmem => by simp [hmem] at hc⟩

theorem IsFlat.not_endsSequence (h : IsFlat lex) : endsSequence lex.text = false := by
  have hd := h.delimiter
  unfold isDelimiter at hd
  unfold endsSequence
  simp only [List.mem_cons, List.not_mem_nil, or_false, decide_eq_false_iff_not, not_or] at hd ⊢
  exact ⟨hd.2.1, hd.2.2.2.1, hd.2.2.2.2.1⟩

theorem IsFlat.closing?_eq_none (h : IsFlat lex) : closing? lex.text = none := by
  have hd := h.delimiter
  unfold isDelimiter at hd
  unfold closing?
  simp only [List.mem_cons, List.not_mem_nil, or_false, decide_eq_false_iff_not, not_or] at hd
  rw [if_neg hd.1, if_neg hd.2.2.1]

theorem IsFlat.ne_ellipsis (h : IsFlat lex) : lex.text ≠ "..." := by
  intro heq
  have hd := h.delimiter
  rw [heq] at hd
  exact absurd hd (by decide)

def following (took : Bool) (rest : List Lexeme) : List Lexeme :=
  if took then rest.drop 1 else rest

theorem mem_of_mem_following {took : Bool} (h : lex ∈ following took rest) : lex ∈ rest := by
  unfold following at h
  split at h
  · exact List.mem_of_mem_drop h
  · exact h

theorem map_following (tokens : List Token) (took literal : Bool) :
    (following took rest).map Lexeme.text =
      Conventions.Step.following ⟨tokens, took, literal⟩ (rest.map Lexeme.text) := by
  cases took with
  | false => rfl
  | true => exact List.map_drop

theorem afterPlaceholder_eq_ok {form : String} {r : { r : List Lexeme // r.length ≤ rest.length }}
    (h : afterPlaceholder lex form rest = .ok r) :
    r.1 = rest.drop 1 ∧ ∃ v, (rest.map Lexeme.text).head? = some v ∧ v ≠ "--" := by
  cases rest with
  | nil => exact nomatch h
  | cons value rest =>
    unfold afterPlaceholder at h
    dsimp only at h
    split at h
    next hp =>
      obtain rfl := Except.ok.inj h
      refine ⟨rfl, value.text, rfl, ?_⟩
      unfold isPlaceholder at hp
      simp only [ne_eq, Bool.and_eq_true, decide_eq_true_eq] at hp
      exact hp.1
    next => exact nomatch h

theorem splitAt_dashed {word : List Char} {form : List Char} {inline : Option (List Char)}
    (h : Text.splitAt '=' ('-' :: '-' :: word) = (form, inline)) :
    ∃ tail, form = '-' :: '-' :: tail := by
  rw [Text.splitAt_cons, if_neg (by decide), Text.splitAt_cons, if_neg (by decide)] at h
  exact ⟨_, (Prod.mk.inj h).1.symm⟩

/-- How a long option is read in a usage line: an unknown one is added to the table, and a known one
comes by its value as it would on a command line. -/
theorem readLong_cases {form : List Char} {inline : Option (List Char)} {r : Readout rest.length}
    (hs : Text.splitAt '=' lex.text.toList = (form, inline))
    (h : readLong lex rest table = .ok r) :
    (table.byLong (String.ofList form) = [] ∧ ∃ o : OptionDef,
      o = { long := some (String.ofList form), arity := if inline.isSome then 1 else 0 } ∧
      r = ⟨[ofOption o], table.insert o, rest, Nat.le_refl _⟩) ∨
    ∃ o v took, o ∈ table.byLong (String.ofList form) ∧
      Valued o (inline.map String.ofList) (rest.map Lexeme.text).head? v took ∧
      r.patterns = [ofOption o] ∧ r.table = table ∧ r.rest = following took rest := by
  unfold readLong at h
  rw [hs] at h
  cases hb : table.byLong (String.ofList form) with
  | nil =>
    simp only [hb] at h
    exact .inl ⟨rfl, _, rfl, (Except.ok.inj h).symm⟩
  | cons o others =>
    simp only [hb] at h
    refine .inr ?_
    split at h
    next hv =>
      cases inline with
      | some v =>
        obtain rfl := Except.ok.inj h
        exact ⟨o, _, false, List.mem_cons_self, .inline hv rfl, rfl, rfl, rfl⟩
      | none =>
        obtain ⟨after, hafter, h⟩ := bind_eq_ok.mp h
        obtain rfl := pure_eq_ok.mp h
        obtain ⟨hrest, v, hnext, hm⟩ := afterPlaceholder_eq_ok hafter
        exact ⟨o, _, true, List.mem_cons_self, .next hv rfl hnext hm, rfl, rfl, hrest⟩
    next hv =>
      cases inline with
      | some v => exact nomatch h
      | none =>
        obtain rfl := Except.ok.inj h
        have hflag := Bool.eq_false_iff.mpr hv
        exact ⟨o, none, false, List.mem_cons_self, .flag hflag rfl, rfl, rfl, rfl⟩

theorem alike_readLong {first : Char} {word : List Char} (ht : table.LongFormsDashed)
    (hr : lex.text.toList = '-' :: '-' :: first :: word) {r : Readout rest.length}
    (h : readLong lex rest table = .ok r) :
    ∃ leaves tokens took, Alike table r (following took rest) leaves tokens fun c =>
      c.Reads false lex.text (rest.map Lexeme.text).head? ⟨tokens, took, false⟩ := by
  cases hs : Text.splitAt '=' lex.text.toList with
  | mk form inline =>
    obtain ⟨tail, htail⟩ : ∃ tail, form = '-' :: '-' :: tail := splitAt_dashed (hr ▸ hs)
    have hform : (String.ofList form).toList = '-' :: '-' :: tail := by
      rw [String.toList_ofList, htail]
    have hne : String.ofList form ≠ "" := by
      rw [htail]
      exact OptionTable.ofList_ne_empty
    have hreads : ∀ {t : OptionTable} {o v took}, t.byLong (String.ofList form) = [o] →
        Valued o (inline.map String.ofList) (rest.map Lexeme.text).head? v took →
        ∀ c : Conventions, c.optionsFirst = false → t.Extends c.options →
          c.Reads false lex.text (rest.map Lexeme.text).head?
            ⟨[.option o lex.text v], took, false⟩ :=
      fun hb hv c _ hc => .long hr (.intro hs (.inl (hc.long _ _ hne hb)) hv)
    rcases readLong_cases hs h with ⟨hb, o, rfl, rfl⟩ | ⟨o, v, took, ho, hv, hp, rfl, hrest⟩
    · -- the command line finds the option that the usage line added
      have hdashed : IsDashed (some (String.ofList form)) := by
        intro long hlong
        obtain rfl := Option.some.inj hlong
        exact ⟨tail, hform⟩
      refine ⟨_, _, false, rfl, .cons (.option _ _ (inline.map String.ofList)) .nil, rfl,
        ht.insert hdashed, OptionTable.extends_insert_long hform rfl rfl hb,
        hreads (OptionTable.byLong_insert rfl hb) ?_⟩
      cases inline with
      | none => exact .flag rfl rfl
      | some v => exact .inline rfl rfl
    · -- the usage line takes the first option found, and there is no other
      obtain ⟨hmem, hlong⟩ := List.mem_filter.mp ho
      have hone := OptionTable.byLong_eq_singleton hmem (beq_iff_eq.mp hlong) hne
      exact ⟨[.option o], [.option o lex.text v], took, hp, .cons (.option o _ v) .nil, hrest, ht,
        .refl _, hreads hone hv⟩

/-- The letter is that of a flag in `t`, which is the table itself or, if that does not know the
letter, the table with the flag added. -/
inductive FlagIn (table : OptionTable) (letter : Char) : OptionDef → OptionTable → Prop
  | new {o : OptionDef} : table.byShort (String.ofList ['-', letter]) = [] →
      o = { short := some (String.ofList ['-', letter]) } → FlagIn table letter o (table.insert o)
  | known {o : OptionDef} : table.byShort (String.ofList ['-', letter]) = [o] →
      o.takesValue = false → FlagIn table letter o table

theorem FlagIn.grown {letter : Char} {o : OptionDef} {t : OptionTable} (h : FlagIn table letter o t)
    (ht : table.LongFormsDashed) (hletter : letter ≠ '-') :
    t.LongFormsDashed ∧ table.Extends t ∧ t.byShort (String.ofList ['-', letter]) = [o] ∧
      o.takesValue = false := by
  cases h with
  | new hb ho =>
    subst ho
    have hnone : IsDashed none := nofun
    exact ⟨ht.insert hnone, OptionTable.extends_insert_short ht hletter rfl rfl hb,
      OptionTable.byShort_insert rfl hb, rfl⟩
  | known hb hv => exact ⟨ht, .refl table, hb, hv⟩

/-- How the letters of a cluster are read in a usage line: a flag is passed over, and an option with
a value comes by it as it would on a command line. -/
theorem readShorts_cons_cases {letter : Char} {letters : List Char} {r : Readout rest.length}
    (h : readShorts lex rest table (letter :: letters) = .ok r) :
    (∃ o t more, FlagIn table letter o t ∧ readShorts lex rest t letters = .ok more ∧
      r = ⟨ofOption o :: more.patterns, more.table, more.rest, more.bounded⟩) ∨
    ∃ o v took, table.byShort (String.ofList ['-', letter]) = [o] ∧
      Valued o (remainder letters) (rest.map Lexeme.text).head? (some v) took ∧
      r.patterns = [ofOption o] ∧ r.table = table ∧ r.rest = following took rest := by
  unfold readShorts at h
  cases hb : table.byShort (String.ofList ['-', letter]) with
  | nil =>
    simp only [hb] at h
    obtain ⟨more, hmore, h⟩ := bind_eq_ok.mp h
    exact .inl ⟨_, _, more, .new hb rfl, hmore, (pure_eq_ok.mp h).symm⟩
  | cons o others =>
    cases others with
    | cons o' others =>
      simp only [hb] at h
      exact nomatch h
    | nil =>
      simp only [hb] at h
      split at h
      next hv =>
        refine .inr ?_
        cases letters with
        | nil =>
          obtain ⟨after, hafter, h⟩ := bind_eq_ok.mp h
          obtain rfl := pure_eq_ok.mp h
          obtain ⟨hrest, v, hnext, hm⟩ := afterPlaceholder_eq_ok hafter
          exact ⟨o, v, true, rfl, .next hv rfl hnext hm, rfl, rfl, hrest⟩
        | cons second letters =>
          obtain rfl := Except.ok.inj h
          exact ⟨o, _, false, rfl, .inline hv rfl, rfl, rfl, rfl⟩
      next hv =>
        obtain ⟨more, hmore, h⟩ := bind_eq_ok.mp h
        have hflag := Bool.eq_false_iff.mpr hv
        exact .inl ⟨o, table, more, .known hb hflag, hmore, (pure_eq_ok.mp h).symm⟩

theorem alike_readShorts {letters : List Char} (ht : table.LongFormsDashed)
    (hl : '-' ∉ letters) {r : Readout rest.length} (h : readShorts lex rest table letters = .ok r) :
    ∃ leaves tokens took, Alike table r (following took rest) leaves tokens fun c =>
      c.ReadsLetters lex.text (rest.map Lexeme.text).head? letters tokens took := by
  induction letters generalizing table r with
  | nil =>
    obtain rfl := Except.ok.inj h
    exact ⟨[], [], false, rfl, .nil, rfl, ht, .refl table, fun _ _ _ => .nil⟩
  | cons letter letters ih =>
    rw [List.mem_cons, not_or] at hl
    have hletter : letter ≠ '-' := fun heq => hl.1 heq.symm
    rcases readShorts_cons_cases h with
      ⟨o, t, more, hflag, hmore, rfl⟩ | ⟨o, v, took, hb, hv, hp, rfl, hrest⟩
    · obtain ⟨ht, hgrown, hb, hnone⟩ := hflag.grown ht hletter
      obtain ⟨leaves, tokens, took, halike⟩ := ih ht hl.2 hmore
      refine ⟨.option o :: leaves, .option o lex.text none :: tokens, took,
        congrArg (ofOption o :: ·) halike.patterns, .cons (.option o _ none) halike.suits,
        halike.rest, halike.dashed, hgrown.trans halike.grown, fun c hc hall => ?_⟩
      have hknown := (halike.grown.trans hall).short letter o hletter hb
      exact .flag hknown hnone (halike.reads c hc hall)
    · exact ⟨[.option o], [.option o lex.text (some v)], took, hp, .cons (.option o _ _) .nil,
        hrest, ht, .refl _, fun c _ hc => .valued (hc.short letter o hletter hb) hv⟩

/-- **A word of a usage line is read alike on a command line.** -/
theorem alike_readWord (ht : table.LongFormsDashed) (hf : IsFlat lex) {r : Readout rest.length}
    (h : readWord lex rest table = .ok r) :
    ∃ leaves tokens took, Alike table r (following took rest) leaves tokens fun c =>
      c.Reads false lex.text (rest.map Lexeme.text).head? ⟨tokens, took, false⟩ := by
  unfold readWord at h
  dsimp only at h
  rw [if_neg hf.ne_ellipsis, if_neg hf.shortcut] at h
  split at h
  next first word hr => exact alike_readLong ht hr h
  next hr => exact absurd (Conventions.toList_eq_marker.mp hr) hf.marker
  next first letters hlong hmarker hr =>
    have hfirst : first ≠ '-' := by
      rintro rfl
      cases letters with
      | nil => exact hmarker rfl rfl
      | cons second letters => exact hlong _ _ rfl rfl
    obtain ⟨leaves, tokens, took, halike⟩ := alike_readShorts ht (hf.letters hr hfirst) h
    exact ⟨leaves, tokens, took, { halike with
      reads := fun c hc hgrown => .cluster hr hfirst (halike.reads c hc hgrown) }⟩
  next hlong hmarker hcluster =>
    obtain rfl := Except.ok.inj h
    refine ⟨_, [.plain lex.text], false, rfl, .cons ?_ .nil, rfl, ht, .refl table, ?_⟩
    · split
      · exact .argument lex.text
      · exact .command lex.text
    · intro c hc _
      have hword : c.Reads false lex.text (rest.map Lexeme.text).head?
          ⟨[.plain lex.text], false, c.optionsFirst⟩ := .word hcluster
      rwa [hc] at hword

theorem withEllipsis_of_flat {r : Readout n} (h : ∀ lex ∈ r.rest, IsFlat lex) :
    withEllipsis r = r := by
  unfold withEllipsis
  split
  · rfl
  · next lex later hr =>
    exact if_neg (h lex (hr ▸ List.mem_cons_self)).ne_ellipsis

/-- **A row of words is read alike.** -/
theorem alike_readSequence (s : List Lexeme) (hs : ∀ lex ∈ s, IsFlat lex) {table : OptionTable}
    (ht : table.LongFormsDashed) {r : Readout s.length} (h : readSequence s table = .ok r) :
    ∃ leaves tokens, Alike table r [] leaves tokens fun c =>
      c.ReadsAll false (s.map Lexeme.text) tokens false := by
  cases s with
  | nil =>
    rw [readSequence] at h
    obtain rfl := Except.ok.inj h
    exact ⟨[], [], rfl, .nil, rfl, ht, .refl table, fun _ _ _ => .nil⟩
  | cons lex rest =>
    have hlex := hs lex List.mem_cons_self
    rw [readSequence, if_neg (Bool.eq_false_iff.mp hlex.not_endsSequence)] at h
    obtain ⟨element, helement, h⟩ := bind_eq_ok.mp h
    rw [readElement, hlex.closing?_eq_none] at helement
    obtain ⟨leaves, tokens, took, halike⟩ := alike_readWord ht hlex helement
    -- the words left are words of the line, so none of them is an ellipsis
    have hrest : ∀ lex ∈ element.rest, IsFlat lex := by
      intro lex hmem
      rw [halike.rest] at hmem
      exact hs lex (List.mem_cons_of_mem _ (mem_of_mem_following hmem))
    have hplain := withEllipsis_of_flat hrest
    rw [← hplain] at halike hrest
    obtain ⟨more, hmore, h⟩ := bind_eq_ok.mp h
    obtain rfl := pure_eq_ok.mp h
    have hshorter : (withEllipsis element).rest.length < (lex :: rest).length :=
      Nat.lt_succ_of_le (withEllipsis element).bounded
    obtain ⟨leaves', tokens', hlike⟩ := alike_readSequence _ hrest halike.dashed hmore
    refine ⟨leaves ++ leaves', tokens ++ tokens', ?_, List.rel_append halike.suits hlike.suits,
      hlike.rest, hlike.dashed, halike.grown.trans hlike.grown, fun c hc hgrown => ?_⟩
    · rw [List.map_append, ← halike.patterns, ← hlike.patterns]
    · -- the options known after the element are still known after the line
      have hfirst := halike.reads c hc (hlike.grown.trans hgrown)
      refine .cons hfirst ?_
      have hafter := hlike.reads c hc hgrown
      rwa [halike.rest, map_following] at hafter
termination_by s.length

/-- A line of words is read as a row of leaves, with nothing to choose and nothing to fill in. -/
theorem alike_readLine {declared final : OptionTable} {s : List Lexeme} {line : Pattern}
    (hs : ∀ lex ∈ s, IsFlat lex) (ht : table.LongFormsDashed)
    (h : readLine declared table s = .ok (line, final)) :
    ∃ leaves tokens, line = .required (leaves.map .leaf) ∧ List.Forall₂ Suits leaves tokens ∧
      ∀ c : Conventions, c.optionsFirst = false → final.Extends c.options →
        c.ReadsAll false (s.map Lexeme.text) tokens false := by
  obtain ⟨read, hread, h⟩ := bind_eq_ok.mp h
  rw [readChoice] at hread
  obtain ⟨first, hfirst, hread⟩ := bind_eq_ok.mp hread
  obtain ⟨leaves, tokens, halike⟩ := alike_readSequence s hs ht hfirst
  have hfirst : first = read := by
    split at hread
    next => exact pure_eq_ok.mp hread
    next bar after hbar =>
      rw [halike.rest] at hbar
      cases hbar
  subst hfirst
  rw [halike.rest] at h
  obtain ⟨rfl, rfl⟩ := Prod.mk.inj (pure_eq_ok.mp h)
  refine ⟨leaves, tokens, ?_, halike.suits, halike.reads⟩
  rw [halike.patterns, fill, fillAll_map_leaf]

/-- **A flat usage line accepts its own spelling.** -/
theorem run_ownSpelling {help : String} {declared final : OptionTable} {s : List Lexeme}
    {line : Pattern} (hd : OptionTable.read help = .ok declared) (hs : ∀ lex ∈ s, IsFlat lex)
    (h : readLine declared declared s = .ok (line, final)) {c : Conventions}
    (hc : c.options = final) (hf : c.optionsFirst = false) :
    ∃ tokens ms, c.tokenize (s.map Lexeme.text) = .ok tokens ∧
      tokens.filterMap Token.option? = line.leaves.filterMap Leaf.option? ∧
      (Matching.run tokens (.either [line])).matched = some ms ∧
      ms.map LeafMatch.leaf = line.leaves ∧
      ms.map LeafMatch.index = List.range tokens.length := by
  obtain ⟨leaves, tokens, rfl, hsuits, hreads⟩ := alike_readLine hs (OptionTable.read_dashed hd) h
  have htokens : c.tokenize (s.map Lexeme.text) = .ok tokens :=
    Conventions.tokenize_eq_ok.mpr ⟨false, hreads c hf (hc ▸ .refl final)⟩
  have hleaves : (Pattern.required (leaves.map .leaf)).leaves = leaves := by
    rw [Pattern.leaves, leavesAll_map_leaf]
  rw [hleaves]
  obtain ⟨ms, hrun, hms, hindices⟩ := Matching.run_in_step hsuits
  exact ⟨tokens, ms, htokens, Matching.filterMap_option? hsuits, hrun, hms, hindices⟩

/-- A cluster with a placeholder, and an option of the line itself, the second time with a
placeholder that looks like an option. -/
theorem run_ownSpelling_placeholders :
    ∃ declared final s line, ∃ c : Conventions,
      OptionTable.read "Options: -a\n -o FILE, --out FILE" = .ok declared ∧
      s.map Lexeme.text = ["add", "-ao", "x", "--new=v", "--new", "-oy"] ∧
      (∀ lex ∈ s, IsFlat lex) ∧ readLine declared declared s = .ok (line, final) ∧
      c.options = final ∧ c.optionsFirst = false ∧
      ∃ tokens ms, c.tokenize (s.map Lexeme.text) = .ok tokens ∧
        (Matching.run tokens (.either [line])).matched = some ms ∧
        ms.map LeafMatch.leaf = line.leaves ∧ ms.map LeafMatch.index = [0, 1, 2, 3, 4] := by
  let out : OptionDef := { short := some "-o", long := some "--out", arity := 1 }
  let new : OptionDef := { long := some "--new", arity := 1 }
  let declared : OptionTable := .ofList [{ short := some "-a" }, out]
  let s : List Lexeme := [⟨"add", 1, 2⟩, ⟨"-ao", 1, 6⟩, ⟨"x", 1, 10⟩, ⟨"--new=v", 1, 12⟩,
    ⟨"--new", 1, 20⟩, ⟨"-oy", 1, 26⟩]
  let line : Pattern := .required [.leaf (.command "add"), ofOption { short := some "-a" },
    ofOption out, ofOption new, ofOption new]
  let c : Conventions := { options := declared.insert new }
  have hc : c.options = declared.insert new := rfl
  have hd : OptionTable.read "Options: -a\n -o FILE, --out FILE" = .ok declared := by decide +kernel
  have hs : ∀ lex ∈ s, IsFlat lex := by decide
  have h : readLine declared declared s = .ok (line, declared.insert new) := by cbv
  obtain ⟨tokens, ms, htokens, -, hrun, hleaves, hindices⟩ :=
    run_ownSpelling hd hs h hc rfl
  refine ⟨declared, _, s, line, c, hd, rfl, hs, h, hc, rfl, tokens, ms, htokens, hrun, hleaves, ?_⟩
  obtain rfl := Except.ok.inj htokens
  exact hindices

end Pattern

end Synopsis
