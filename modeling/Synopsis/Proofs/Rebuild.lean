import Synopsis.Proofs.Reading

/-!
# Tokens hold the arguments they were read from

`rebuild` puts the arguments of a command line together again from its tokens. Each token knows the
argument it came from, so what is left to find out is which tokens share one argument and which
values were arguments of their own: the letters of a cluster are counted off, one for each token,
and a value is an argument of its own if nothing is left for it where its option stands.
-/

namespace Synopsis

namespace Token

/-- The value of an option, as arguments of its own. -/
def ownArgument (o : OptionDef) (inline : Bool) (value : Option String) : List String :=
  if o.takesValue && !inline then value.toList else []

/-- The arguments of tokens, the first of which go with the letters of a cluster begun before. -/
def rebuildFrom : List Char → List Token → List String
  | _, [] => []
  | _, .plain raw :: ts => raw :: rebuildFrom [] ts
  | _, .marker raw :: ts => raw :: rebuildFrom [] ts
  | pending, .option o raw value :: ts =>
    if "--".toList.isPrefixOf raw.toList then
      raw :: ownArgument o (raw.toList.contains '=') value ++ rebuildFrom [] ts
    else
      -- a token with no letter waiting for it begins a cluster
      let opening := if pending.isEmpty then [raw] else []
      let rest := if pending.isEmpty then raw.toList.drop 2 else pending.drop 1
      opening ++ ownArgument o (!rest.isEmpty) value ++
        rebuildFrom (if o.takesValue then [] else rest) ts

/-- **The arguments that tokens were read from.** -/
def rebuild (ts : List Token) : List String :=
  rebuildFrom [] ts

end Token

namespace Conventions

open Token (ownArgument rebuildFrom rebuild)

variable {c : Conventions} {raw : String} {next : Option String}

theorem ownArgument_of_valued {o : OptionDef} {inline v : Option String} {took : Bool}
    (h : Valued o inline next v took) :
    ownArgument o inline.isSome v = if took then next.toList else [] := by
  unfold ownArgument
  cases h with
  | flag ht hi => simp [ht]
  | inline ht hi => simp [ht, hi]
  | next ht hi hn => simp [ht, hi, hn]

theorem rebuildFrom_letter {letter : Char} {rest : List Char} {o : OptionDef} {v : Option String}
    (hraw : "--".toList.isPrefixOf raw.toList = false) (ts : List Token) :
    rebuildFrom (letter :: rest) (.option o raw v :: ts) =
      ownArgument o (!rest.isEmpty) v ++ rebuildFrom (if o.takesValue then [] else rest) ts := by
  rw [rebuildFrom, if_neg (Bool.eq_false_iff.mp hraw)]
  rfl

theorem remainder_isSome (letters : List Char) : (remainder letters).isSome = !letters.isEmpty := by
  cases letters <;> rfl

/-- The tokens of a cluster begun use up its letters. -/
theorem rebuildFrom_letters {letters : List Char} {tokens : List Token} {took : Bool}
    (hraw : "--".toList.isPrefixOf raw.toList = false)
    (h : c.ReadsLetters raw next letters tokens took) (ts : List Token) :
    rebuildFrom letters (tokens ++ ts) =
      (if took then next.toList else []) ++ rebuildFrom [] ts := by
  induction h with
  | nil => rfl
  | @flag letter rest o tokens took _ ht _ ih =>
    have hnone : ownArgument o (!rest.isEmpty) none = [] := by simp [ownArgument]
    rw [List.cons_append, rebuildFrom_letter hraw, hnone, ht, if_neg Bool.false_ne_true, ih]
    rfl
  | @valued letter rest o v took _ hv =>
    have ht : o.takesValue = true := by cases hv <;> assumption
    rw [List.cons_append, List.nil_append, rebuildFrom_letter hraw, ← remainder_isSome,
      ownArgument_of_valued hv, if_pos ht]

theorem rebuildFrom_cluster {first : Char} {rest : List Char} {tokens : List Token} {took : Bool}
    (hr : raw.toList = '-' :: first :: rest) (hf : first ≠ '-')
    (h : c.ReadsLetters raw next (first :: rest) tokens took) (ts : List Token) :
    rebuildFrom [] (tokens ++ ts) =
      raw :: ((if took then next.toList else []) ++ rebuildFrom [] ts) := by
  have hraw : "--".toList.isPrefixOf raw.toList = false := by
    have hf' : ('-' == first) = false := beq_false_of_ne fun h => hf h.symm
    simp [hr, List.isPrefixOf, hf']
  -- with no letter waiting, a token gives the argument and then goes with the first letter
  have hopen : ∀ o v us, rebuildFrom [] (.option o raw v :: us) =
      raw :: rebuildFrom (first :: rest) (.option o raw v :: us) := by
    intro o v us
    rw [rebuildFrom_letter hraw, rebuildFrom, if_neg (Bool.eq_false_iff.mp hraw), hr]
    rfl
  rw [← rebuildFrom_letters hraw h ts]
  cases h with
  | flag => exact hopen _ _ _
  | valued => exact hopen _ _ _

/-- **The tokens of one argument give it back**, with the next one if that was taken. -/
theorem rebuildFrom_step {literal : Bool} {s : Step} (hk : c.keepMarker = true)
    (h : c.Reads literal raw next s) (ts : List Token) :
    rebuildFrom [] (s.tokens ++ ts) =
      raw :: ((if s.tookNext then next.toList else []) ++ rebuildFrom [] ts) := by
  cases h with
  | literal => rfl
  | marker =>
    rw [if_pos hk]
    rfl
  | @long _ _ first rest token took hr hl =>
    have hraw : "--".toList.isPrefixOf raw.toList = true := by simp [hr]
    cases hl with
    | @intro form inline o v took hs ho hv =>
      have hinline : raw.toList.contains '=' = (inline.map String.ofList).isSome := by
        rw [Option.isSome_map, ← Text.splitAt_snd_isSome, hs]
      rw [List.cons_append, List.nil_append, rebuildFrom, if_pos hraw, hinline,
        ownArgument_of_valued hv, List.cons_append]
  | cluster hr hf hl => exact rebuildFrom_cluster hr hf hl ts
  | word => rfl

theorem ReadsAll.rebuild_eq {literal after : Bool} {arguments : List String} {tokens : List Token}
    (hk : c.keepMarker = true) (h : c.ReadsAll literal arguments tokens after) :
    rebuild tokens = arguments := by
  unfold rebuild
  induction h with
  | nil => rfl
  | @cons literal raw ahead s tokens after hs _ ih =>
    rw [rebuildFrom_step hk hs, ih, Step.following]
    cases ahead <;> cases s.tookNext <;> rfl

/-- **No argument is lost in the tokens of a command line** that keep the marker: they give all the
arguments back. -/
theorem rebuild_tokenize (hk : c.keepMarker = true) {arguments : List String} {tokens : List Token}
    (h : c.tokenize arguments = .ok tokens) : rebuild tokens = arguments := by
  obtain ⟨after, hall⟩ := tokenize_eq_ok.mp h
  exact hall.rebuild_eq hk

/-- Equal clusters side by side, a value from each place it may come from, and an option behind the
marker. -/
theorem rebuild_of_equal_clusters :
    ∃ c : Conventions, c.keepMarker = true ∧ ∃ tokens,
      c.tokenize ["-aa", "-aa", "-ao", "x", "-aoy", "--out=", "--ou", "-a", "--", "-a"] =
        .ok tokens ∧
      tokens.map Token.raw =
        ["-aa", "-aa", "-aa", "-aa", "-ao", "-ao", "-aoy", "-aoy", "--out=", "--ou", "--", "-a"] ∧
      rebuild tokens =
        ["-aa", "-aa", "-ao", "x", "-aoy", "--out=", "--ou", "-a", "--", "-a"] := by
  let c : Conventions :=
    { options := .ofList [{ short := some "-a" },
        { short := some "-o", long := some "--out", arity := 1 }] }
  have hk : c.keepMarker = true := rfl
  exact ⟨c, hk, _, rfl, rfl, rebuild_tokenize hk rfl⟩

end Conventions

end Synopsis
