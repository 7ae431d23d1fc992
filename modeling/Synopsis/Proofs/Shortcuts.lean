import Synopsis.Proofs.Overlooking
import Synopsis.Proofs.Preference
import Synopsis.Proofs.Transcript

/-!
# The options that a shortcut stands for

A shortcut in front of a pattern explores every selection of its options. If the pattern uses none
of them, only one selection is of use, all options that are there: a token of one of them that the
shortcut leaves is never matched, and the shortcut cannot take two of one option. What the pattern
then makes of the other tokens does not depend on where the options stood.
-/

namespace Synopsis

namespace Token

/-- The token is none of the options. -/
def isNoneOf (os : List OptionDef) (t : Token) : Bool :=
  os.all fun o => !t.isOptionOf o.name

theorem isNoneOf_eq_false {os : List OptionDef} {t : Token} :
    t.isNoneOf os = false ↔ ∃ o ∈ os, t.isOptionOf o.name = true := by
  rw [isNoneOf, List.all_eq_false]
  simp only [Bool.not_eq_true, Bool.not_eq_false']

end Token

namespace Matching

variable {tokens : List Token} {os : List OptionDef} {p : Pattern}

theorem derivesAll_none (ps : List Pattern) (left : List Nat) :
    DerivesAll tokens true ps left left [] := by
  induction ps with
  | nil => exact .nil
  | cons p ps ih => exact .skip ih

/-- A shortcut in front of a pattern takes some of its options, and the pattern goes on from
there. -/
theorem derives_shortcut_iff {ps : List Pattern} {left rest : List Nat} :
    (∃ ms, Derives tokens (.required [.optional [.shortcut ps], p]) left rest ms) ↔
      ∃ mid, (∃ taken, DerivesAll tokens true ps left mid taken) ∧
        ∃ ms, Derives tokens p mid rest ms := by
  constructor
  · rintro ⟨ms, hd⟩
    cases hd with
    | required hd =>
      cases hd with
      | cons hoptions hp =>
        cases hp with
        | cons hp hnil =>
          cases hnil
          cases hoptions with
          | optional hoptions =>
            cases hoptions with
            | cons hshortcut hnil =>
              cases hnil
              cases hshortcut with
              | shortcut htaken => exact ⟨_, ⟨_, htaken⟩, _, hp⟩
            | skip hnil =>
              cases hnil
              exact ⟨_, ⟨_, derivesAll_none ps _⟩, _, hp⟩
  · rintro ⟨mid, ⟨taken, htaken⟩, ms, hp⟩
    exact ⟨_, .required (.cons (.optional (.cons (.shortcut htaken) .nil)) (.cons hp .nil))⟩

theorem multiplicitySum_map_ofOption (name : String) (os : List OptionDef) :
    Pattern.multiplicitySum name (os.map .ofOption) = (os.map OptionDef.name).count name := by
  induction os with
  | nil => rfl
  | cons o os ih =>
    rw [List.map_cons, Pattern.multiplicitySum, ih, List.map_cons, List.count_cons,
      Pattern.ofOption, Pattern.multiplicity, Nat.add_comm]
    congr 1
    exact if_congr beq_iff_eq.symm rfl rfl

/-- Options taken one after the other are taken from tokens of theirs. -/
theorem isOptionAt_of_taken {left mid : List Nat} {taken : List LeafMatch}
    (h : DerivesAll tokens true (os.map .ofOption) left mid taken) {m : LeafMatch}
    (hm : m ∈ taken) : ∃ o ∈ os, m.name = o.name ∧ isOptionAt tokens o.name m.index = true := by
  obtain ⟨hl, _, hc⟩ := h.match_mem m hm
  rw [Pattern.leavesAll_map_ofOption] at hl
  obtain ⟨o, ho, hleaf⟩ := List.mem_map.mp hl
  obtain ⟨t, ht, hk⟩ := hc.token
  rw [← hleaf] at hk
  refine ⟨o, ho, congrArg Leaf.name hleaf.symm, ?_⟩
  rw [isOptionAt, ht]
  exact hk

/-- A shortcut takes of each option no more than one token, so if no token of it is left, there
was no more than one. -/
theorem countP_le_one_of_taken (hos : (os.map OptionDef.name).Nodup) {mid : List Nat}
    {taken : List LeafMatch}
    (h : DerivesAll tokens true (os.map .ofOption) (everything tokens) mid taken) {name : String}
    (hmid : ∀ i ∈ mid, isOptionAt tokens name i = false) :
    tokens.countP (Token.isOptionOf name) ≤ 1 := by
  have hmultiplicity : Pattern.multiplicitySum name (os.map .ofOption) ≤ 1 := by
    rw [multiplicitySum_map_ofOption]
    exact List.nodup_iff_count_le_one.mp hos name
  have hmid' : mid.countP (isOptionAt tokens name) = 0 :=
    List.countP_eq_zero.mpr fun i hi => Bool.eq_false_iff.mp (hmid i hi)
  have hown : ∀ m ∈ taken, isOptionAt tokens name m.index = true → (m.name == name) = true := by
    intro m hm hopt
    obtain ⟨o, -, hname, ho⟩ := isOptionAt_of_taken h hm
    exact beq_iff_eq.mpr (hname.trans (isOptionAt_unique ho hopt))
  calc tokens.countP (Token.isOptionOf name)
      = (everything tokens).countP (isOptionAt tokens name) := (countP_everything _ _).symm
    _ = (taken.map LeafMatch.index ++ mid).countP (isOptionAt tokens name) :=
        ((h.account List.nodup_range).countP_eq _).symm
    _ = taken.countP (isOptionAt tokens name ∘ LeafMatch.index) := by
        rw [List.countP_append, hmid', List.countP_map, Nat.add_zero]
    _ ≤ taken.countP (·.name == name) := List.countP_mono_left hown
    _ = (matchesOf name taken).length := List.countP_eq_length_filter
    _ ≤ 1 := Nat.le_trans (h.length_matchesOf_le name hmultiplicity) hmultiplicity

/-- A shortcut that leaves none of its tokens leaves just the other ones. -/
theorem eq_keptPlaces_of_taken {mid : List Nat} {taken : List LeafMatch}
    (h : DerivesAll tokens true (os.map .ofOption) (everything tokens) mid taken)
    (hmid : ∀ i ∈ mid, tokens[i]?.any (Token.isNoneOf os) = true) :
    mid = keptPlaces (Token.isNoneOf os) tokens := by
  have hsorted : (everything tokens).Pairwise (· < ·) := List.pairwise_lt_range
  have hsublist : mid.Sublist (everything tokens) := by
    obtain ⟨o, ho, rfl⟩ := List.mem_map.mp h.mem_lefts
    exact Enumeration.shrinks _ _ o ho
  have htaken : (taken.map LeafMatch.index).filter (tokens[·]?.any (Token.isNoneOf os)) = [] := by
    refine List.filter_eq_nil_iff.mpr fun i hi hnone => ?_
    obtain ⟨m, hm, rfl⟩ := List.mem_map.mp hi
    obtain ⟨o, ho, -, hopt⟩ := isOptionAt_of_taken h hm
    obtain ⟨t, ht, hk⟩ := (Option.any_eq_true ..).mp hopt
    rw [ht, Option.any_some, ← Bool.not_eq_false, Token.isNoneOf_eq_false] at hnone
    exact hnone ⟨o, ho, hk⟩
  have hperm := (h.account List.nodup_range).filter (tokens[·]?.any (Token.isNoneOf os))
  rw [List.filter_append, htaken, List.nil_append, List.filter_eq_self.mpr hmid] at hperm
  exact hperm.eq_of_pairwise (fun a b _ _ hab hba => absurd hab (Nat.lt_asymm hba))
    (hsorted.sublist hsublist) (hsorted.filter _)

/-- Where at most one token has an option, it stands at one place. -/
theorem isOptionAt_once {name : String} (h : tokens.countP (Token.isOptionOf name) ≤ 1)
    {i j : Nat} (hi : i ∈ everything tokens) (hj : j ∈ everything tokens)
    (hoi : isOptionAt tokens name i = true) (hoj : isOptionAt tokens name j = true) : i = j := by
  have hlength : ((everything tokens).filter (isOptionAt tokens name)).length ≤ 1 := by
    rw [← List.countP_eq_length_filter]
    exact Nat.le_trans (Nat.le_of_eq (countP_everything _ _)) h
  have hmi := List.mem_filter.mpr ⟨hi, hoi⟩
  have hmj := List.mem_filter.mpr ⟨hj, hoj⟩
  obtain ⟨k, hk⟩ := List.length_eq_one_iff.mp (Nat.le_antisymm hlength (List.length_pos_of_mem hmi))
  rw [hk, List.mem_singleton] at hmi hmj
  rw [hmi, hmj]

/-- Where no option of a shortcut is there twice, it may leave just the other tokens. -/
theorem exists_taken (hos : (os.map OptionDef.name).Nodup)
    (hone : ∀ o ∈ os, tokens.countP (Token.isOptionOf o.name) ≤ 1) :
    ∃ taken, DerivesAll tokens true (os.map .ofOption) (everything tokens)
      (keptPlaces (Token.isNoneOf os) tokens) taken := by
  have hprefers := prefers_options hos fun o ho i hi j hj => isOptionAt_once (hone o ho) hi hj
  have hkept : ((everything tokens).filter fun i => os.all fun o => !isOptionAt tokens o.name i) =
      keptPlaces (Token.isNoneOf os) tokens := by
    refine List.filter_congr fun i hi => ?_
    obtain ⟨t, ht⟩ : ∃ t, tokens[i]? = some t :=
      ⟨_, List.getElem?_eq_getElem (List.mem_range.mp hi)⟩
    simp only [isOptionAt, ht, Option.any_some, Token.isNoneOf]
  obtain ⟨more, hmore⟩ := List.head?_eq_some_iff.mp hprefers
  rw [← hkept]
  exact ⟨_, derivesAll_of_mem true _ _ _ (hmore ▸ List.mem_cons_self)⟩

/-- **A shortcut accepts exactly the options it stands for.** In front of a pattern without them it
matches a command line if and only if each of the options is there at most once and the pattern
matches the command line without them. -/
theorem match_of_shortcut (hos : (os.map OptionDef.name).Nodup)
    (hp : ∀ o, Leaf.option o ∈ p.leaves → o.name ∉ os.map OptionDef.name) (tokens : List Token) :
    (run tokens (.required [.optional [.shortcut (os.map .ofOption)], p])).matched.isSome = true ↔
      (∀ o ∈ os, tokens.countP (Token.isOptionOf o.name) ≤ 1) ∧
        (run (tokens.filter (Token.isNoneOf os)) p).matched.isSome = true := by
  have hforeign : ∀ l ∈ p.leaves, ∀ t, Token.isNoneOf os t = false → l.kind t = false := by
    intro l hl t ht
    obtain ⟨o, ho, hopt⟩ := Token.isNoneOf_eq_false.mp ht
    refine Token.kind_eq_false hopt fun o' hlo heq => ?_
    exact hp o' (hlo ▸ hl) (heq ▸ List.mem_map_of_mem ho)
  have hrun : (run tokens (.required [.optional [.shortcut (os.map .ofOption)],
      p])).matched.isSome = true ↔ ∃ ms, Derives tokens (.required [.optional
        [.shortcut (os.map .ofOption)], p]) (everything tokens) [] ms :=
    settle_isSome_iff sound_empty _ _
  rw [hrun, derives_shortcut_iff, ← derives_keptPlaces_iff hforeign]
  constructor
  · rintro ⟨mid, ⟨taken, htaken⟩, ms, hd⟩
    have hnodup := nodup_of_account (htaken.account List.nodup_range) List.nodup_range
    -- whatever the shortcut leaves is matched by a leaf of the pattern
    have hmid : ∀ i ∈ mid, tokens[i]?.any (Token.isNoneOf os) = true := by
      intro i hi
      have haccount := hd.account hnodup
      rw [List.append_nil] at haccount
      obtain ⟨m, hm, rfl⟩ := List.mem_map.mp (haccount.mem_iff.mpr hi)
      obtain ⟨hl, _, hc⟩ := hd.match_mem m hm
      obtain ⟨t, ht, hk⟩ := hc.token
      rw [ht, Option.any_some, ← Bool.not_eq_false]
      exact fun hfalse => Bool.false_ne_true ((hforeign _ hl t hfalse).symm.trans hk)
    refine ⟨fun o ho => countP_le_one_of_taken hos htaken fun i hi => ?_,
      eq_keptPlaces_of_taken htaken hmid ▸ ⟨ms, hd⟩⟩
    obtain ⟨t, ht, hnone⟩ := (Option.any_eq_true ..).mp (hmid i hi)
    rw [isOptionAt, ht, Option.any_some]
    exact (Bool.not_eq_true' _).mp (List.all_eq_true.mp hnone o ho)
  · rintro ⟨hone, hd⟩
    exact ⟨_, exists_taken hos hone, hd⟩

/-- Two options around the words of a command that repeats its argument, the later one first. -/
theorem match_of_two_shortcut_options :
    (([{ short := some "-v" }, { short := some "-o", arity := 1 }] : List OptionDef).map
      OptionDef.name).Nodup ∧
    (∀ o, Leaf.option o ∈ (Pattern.required [.leaf (.command "go"),
        .oneOrMore (.leaf (.argument "<x>"))]).leaves → o.name ∉ ["-v", "-o"]) ∧
    (run [.option { short := some "-o", arity := 1 } "-o" (some "1"), .plain "go", .plain "a",
        .option { short := some "-v" } "-v" none, .plain "b"]
      (.required [.optional [.shortcut [.ofOption { short := some "-v" },
        .ofOption { short := some "-o", arity := 1 }]], .required [.leaf (.command "go"),
          .oneOrMore (.leaf (.argument "<x>"))]])).matched.isSome = true := by
  have hos : (([{ short := some "-v" }, { short := some "-o", arity := 1 }] : List OptionDef).map
      OptionDef.name).Nodup := by decide
  have hp : ∀ o, Leaf.option o ∈ (Pattern.required [.leaf (.command "go"),
      .oneOrMore (.leaf (.argument "<x>"))]).leaves → o.name ∉ ["-v", "-o"] := by
    intro o ho
    simp [Pattern.leaves, Pattern.leavesAll] at ho
  have hwords : ([.plain "go", .plain "a", .plain "b"] : List Token).drop 0 =
      ["go", "a", "b"].map .plain := rfl
  have hrun : ∃ ms, (run [.plain "go", .plain "a", .plain "b"] (.required
      [.leaf (.command "go"), .oneOrMore (.leaf (.argument "<x>"))])).matched = some ms := by
    refine ⟨⟨.command "go", 0, .flag true⟩ :: wordMatches "<x>" 1 ["a", "b"], run_of_prefers ?_⟩
    rw [enumerate]
    exact prefers_cons (prefers_command hwords)
      (prefers_singleton (prefers_arguments (drop_succ_of_words hwords) "<x>"))
  exact ⟨hos, hp, (match_of_shortcut hos hp _).mpr ⟨by decide, Option.isSome_iff_exists.mpr hrun⟩⟩

end Matching

end Synopsis
