import Synopsis.Proofs.InStep

/-!
# What can be repeated

The multiplicity of a name is attained: some way through the pattern comes by as many leaves of the
name as that. Tokens that suit the leaves on the way, in their order, are then consumed one by one,
since each leaf finds its own token in front. Together with the bound on all derivations this makes
multiplicity exact about which names can match more than once.
-/

namespace Synopsis

namespace Pattern

mutual

/-- Every choice between alternatives in the pattern has one. -/
def Branched : Pattern → Prop
  | leaf _ => True
  | required ps => BranchedAll ps
  | optional ps => BranchedAll ps
  | shortcut ps => BranchedAll ps
  | either ps => ps ≠ [] ∧ BranchedAll ps
  | oneOrMore p => Branched p

/-- The same of each of several patterns. -/
def BranchedAll : List Pattern → Prop
  | [] => True
  | p :: ps => Branched p ∧ BranchedAll ps

end

end Pattern

/-- How many of the leaves have the name. -/
def occurrences (name : String) (leaves : List Leaf) : Nat :=
  leaves.countP (·.name == name)

theorem occurrences_append (name : String) (leaves more : List Leaf) :
    occurrences name (leaves ++ more) = occurrences name leaves + occurrences name more :=
  List.countP_append

/-- The token that the leaf spells out; an option that takes a value has an empty one. -/
def Leaf.token : Leaf → Token
  | .command name => .plain name
  | .argument name => .plain name
  | .option o => .option o o.name (if o.takesValue then some "" else none)

namespace Matching

theorem suits_token : ∀ l : Leaf, Suits l l.token
  | .command name => .command name
  | .argument name => .argument name
  | .option o => .option o o.name _

theorem length_matchesOf (name : String) (ms : List LeafMatch) :
    (matchesOf name ms).length = occurrences name (ms.map LeafMatch.leaf) := by
  rw [matchesOf, occurrences, List.countP_map, List.countP_eq_length_filter]
  rfl

/-- **The pattern can consume what suits the leaves**, in their order, wherever it stands in front
of other tokens. -/
def Admits (p : Pattern) (leaves : List Leaf) : Prop :=
  ∀ tokens front rest, SuitAt tokens leaves front → (front ++ rest).Nodup →
    ∃ ms, Derives tokens p (front ++ rest) rest ms ∧ ms.map LeafMatch.leaf = leaves

/-- The patterns can do so one after the other. -/
def AdmitsAll (skipping : Bool) (ps : List Pattern) (leaves : List Leaf) : Prop :=
  ∀ tokens front rest, SuitAt tokens leaves front → (front ++ rest).Nodup →
    ∃ ms, DerivesAll tokens skipping ps (front ++ rest) rest ms ∧ ms.map LeafMatch.leaf = leaves

theorem SuitAt.split {tokens : List Token} {leaves more : List Leaf} {front : List Nat}
    (h : SuitAt tokens (leaves ++ more) front) :
    ∃ mine others, front = mine ++ others ∧ SuitAt tokens leaves mine ∧
      SuitAt tokens more others := by
  refine ⟨front.take leaves.length, front.drop leaves.length,
    (List.take_append_drop leaves.length front).symm, ?_, ?_⟩
  · have htake := List.forall₂_take leaves.length h
    rwa [List.take_left] at htake
  · have hdrop := List.forall₂_drop leaves.length h
    rwa [List.drop_left] at hdrop

variable {p : Pattern} {ps : List Pattern} {leaves more : List Leaf} {skipping : Bool}

theorem admits_leaf (l : Leaf) : Admits (.leaf l) [l] := by
  intro tokens front rest hsuit hn
  cases hsuit with
  | @cons _ i _ _ hl htail =>
    cases htail with
    | nil =>
      obtain ⟨t, ht, hs⟩ := hl
      obtain ⟨v, hv⟩ := hs.consumes ht
      have hd : Derives tokens (.leaf l) (i :: rest) ((i :: rest).filter (· != i)) [⟨l, i, v⟩] :=
        .leaf hv
      have hi : i ∉ rest := (List.nodup_cons.mp hn).1
      rw [filter_ne_head hi] at hd
      exact ⟨_, hd, rfl⟩

theorem admitsAll_nil (skipping : Bool) : AdmitsAll skipping [] [] := by
  intro tokens front rest hsuit _
  cases hsuit with
  | nil => exact ⟨[], .nil, rfl⟩

/-- What consumes the first leaves leaves the tokens of the others in front. -/
theorem Admits.chain (h : Admits p leaves) {tokens : List Token} {front rest : List Nat}
    (hsuit : SuitAt tokens (leaves ++ more) front) (hn : (front ++ rest).Nodup) :
    ∃ others ms, Derives tokens p (front ++ rest) (others ++ rest) ms ∧
      ms.map LeafMatch.leaf = leaves ∧ SuitAt tokens more others ∧ (others ++ rest).Nodup := by
  obtain ⟨mine, others, rfl, hmine, hothers⟩ := hsuit.split
  rw [List.append_assoc] at hn ⊢
  obtain ⟨ms, hd, hms⟩ := h tokens mine (others ++ rest) hmine hn
  exact ⟨others, ms, hd, hms, hothers, (List.nodup_append.mp hn).2.1⟩

theorem Admits.cons (h : Admits p leaves) (k : AdmitsAll skipping ps more) :
    AdmitsAll skipping (p :: ps) (leaves ++ more) := by
  intro tokens front rest hsuit hn
  obtain ⟨others, ms, hd, rfl, hothers, hn'⟩ := h.chain hsuit hn
  obtain ⟨ms', hd', rfl⟩ := k tokens others rest hothers hn'
  exact ⟨ms ++ ms', .cons hd hd', List.map_append⟩

theorem Admits.oneOrMore (h : Admits p leaves) (k : Admits p more) :
    Admits (.oneOrMore p) (leaves ++ more) := by
  intro tokens front rest hsuit hn
  obtain ⟨others, ms, hd, rfl, hothers, hn'⟩ := h.chain hsuit hn
  obtain ⟨ms', hd', rfl⟩ := k tokens others rest hothers hn'
  exact ⟨ms ++ ms', .again hd (.once hd'), List.map_append⟩

theorem Admits.either (hp : p ∈ ps) (h : Admits p leaves) : Admits (.either ps) leaves := by
  intro tokens front rest hsuit hn
  obtain ⟨ms, hd, hms⟩ := h tokens front rest hsuit hn
  exact ⟨ms, .either hp hd, hms⟩

namespace AdmitsAll

theorem required (h : AdmitsAll false ps leaves) : Admits (.required ps) leaves := by
  intro tokens front rest hsuit hn
  obtain ⟨ms, hd, hms⟩ := h tokens front rest hsuit hn
  exact ⟨ms, .required hd, hms⟩

theorem optional (h : AdmitsAll true ps leaves) : Admits (.optional ps) leaves := by
  intro tokens front rest hsuit hn
  obtain ⟨ms, hd, hms⟩ := h tokens front rest hsuit hn
  exact ⟨ms, .optional hd, hms⟩

theorem shortcut (h : AdmitsAll true ps leaves) : Admits (.shortcut ps) leaves := by
  intro tokens front rest hsuit hn
  obtain ⟨ms, hd, hms⟩ := h tokens front rest hsuit hn
  exact ⟨ms, .shortcut hd, hms⟩

end AdmitsAll

open Pattern (multiplicitySum multiplicityMax Branched BranchedAll)

section Attained

variable (name : String)

mutual

/-- **The multiplicity of a name is attained**: some way through the pattern comes by as many of its
leaves. -/
theorem exists_admits : ∀ p : Pattern, p.Branched →
    ∃ leaves, Admits p leaves ∧ occurrences name leaves = p.multiplicity name
  | .leaf l, _ => by
    refine ⟨[l], admits_leaf l, ?_⟩
    rw [Pattern.multiplicity, occurrences, List.countP_singleton]
    simp only [beq_iff_eq]
  | .required ps, h => by
    rw [Branched] at h
    obtain ⟨leaves, ha, hc⟩ := exists_admitsAll false ps h
    exact ⟨leaves, ha.required, by rw [hc, Pattern.multiplicity]⟩
  | .optional ps, h => by
    rw [Branched] at h
    obtain ⟨leaves, ha, hc⟩ := exists_admitsAll true ps h
    exact ⟨leaves, ha.optional, by rw [hc, Pattern.multiplicity]⟩
  | .shortcut ps, h => by
    rw [Branched] at h
    obtain ⟨leaves, ha, hc⟩ := exists_admitsAll true ps h
    exact ⟨leaves, ha.shortcut, by rw [hc, Pattern.multiplicity]⟩
  | .either ps, h => by
    rw [Branched] at h
    obtain ⟨p, hp, leaves, ha, hc⟩ := exists_admits_mem ps h.1 h.2
    exact ⟨leaves, ha.either hp, by rw [hc, Pattern.multiplicity]⟩
  | .oneOrMore p, h => by
    rw [Branched] at h
    obtain ⟨leaves, ha, hc⟩ := exists_admits p h
    -- two rounds are as good as any number of them
    refine ⟨leaves ++ leaves, ha.oneOrMore ha, ?_⟩
    rw [occurrences_append, hc, Pattern.multiplicity, Nat.two_mul]

theorem exists_admitsAll (skipping : Bool) : ∀ ps : List Pattern, BranchedAll ps →
    ∃ leaves, AdmitsAll skipping ps leaves ∧ occurrences name leaves = multiplicitySum name ps
  | [], _ => ⟨[], admitsAll_nil skipping, by rw [multiplicitySum]; rfl⟩
  | p :: ps, h => by
    rw [BranchedAll] at h
    obtain ⟨leaves, ha, hc⟩ := exists_admits p h.1
    obtain ⟨more, hb, hd⟩ := exists_admitsAll skipping ps h.2
    exact ⟨leaves ++ more, ha.cons hb, by rw [occurrences_append, hc, hd, multiplicitySum]⟩

/-- One of several patterns attains the largest multiplicity. -/
theorem exists_admits_mem : ∀ ps : List Pattern, ps ≠ [] → BranchedAll ps →
    ∃ p ∈ ps, ∃ leaves, Admits p leaves ∧ occurrences name leaves = multiplicityMax name ps
  | [], hne, _ => absurd rfl hne
  | [p], _, h => by
    rw [BranchedAll] at h
    obtain ⟨leaves, ha, hc⟩ := exists_admits p h.1
    exact ⟨p, List.mem_cons_self, leaves, ha, by simp [hc, multiplicityMax]⟩
  | p :: q :: ps, _, h => by
    rw [BranchedAll] at h
    rw [multiplicityMax]
    rcases Nat.le_total (multiplicityMax name (q :: ps)) (p.multiplicity name) with hle | hle
    · obtain ⟨leaves, ha, hc⟩ := exists_admits p h.1
      exact ⟨p, List.mem_cons_self, leaves, ha, by rw [hc, Nat.max_eq_left hle]⟩
    · obtain ⟨r, hr, leaves, ha, hc⟩ := exists_admits_mem (q :: ps) (List.cons_ne_nil q ps) h.2
      exact ⟨r, List.mem_cons_of_mem p hr, leaves, ha, by rw [hc, Nat.max_eq_right hle]⟩

end

mutual

/-- A name has no multiplicity exactly if no leaf has it. -/
theorem multiplicity_eq_zero : ∀ p : Pattern,
    p.multiplicity name = 0 ↔ ∀ l ∈ p.leaves, l.name ≠ name
  | .leaf l => by
    rw [Pattern.multiplicity, Pattern.leaves, List.forall_mem_singleton]
    by_cases hl : l.name = name
    · simp [hl]
    · simp [hl]
  | .required ps => by
    rw [Pattern.multiplicity, Pattern.leaves]
    exact multiplicitySum_eq_zero ps
  | .optional ps => by
    rw [Pattern.multiplicity, Pattern.leaves]
    exact multiplicitySum_eq_zero ps
  | .shortcut ps => by
    rw [Pattern.multiplicity, Pattern.leaves]
    exact multiplicitySum_eq_zero ps
  | .either ps => by
    rw [Pattern.multiplicity, Pattern.leaves]
    exact multiplicityMax_eq_zero ps
  | .oneOrMore p => by
    rw [Pattern.multiplicity, Pattern.leaves, ← multiplicity_eq_zero p]
    omega

theorem multiplicitySum_eq_zero : ∀ ps : List Pattern,
    multiplicitySum name ps = 0 ↔ ∀ l ∈ Pattern.leavesAll ps, l.name ≠ name
  | [] => by simp [multiplicitySum, Pattern.leavesAll]
  | p :: ps => by
    rw [multiplicitySum, Pattern.leavesAll, List.forall_mem_append, ← multiplicity_eq_zero p,
      ← multiplicitySum_eq_zero ps, Nat.add_eq_zero_iff]

theorem multiplicityMax_eq_zero : ∀ ps : List Pattern,
    multiplicityMax name ps = 0 ↔ ∀ l ∈ Pattern.leavesAll ps, l.name ≠ name
  | [] => by simp [multiplicityMax, Pattern.leavesAll]
  | p :: ps => by
    rw [multiplicityMax, Pattern.leavesAll, List.forall_mem_append, ← multiplicity_eq_zero p,
      ← multiplicityMax_eq_zero ps, Nat.max_eq_zero_iff]

end

/-- A row of leaves that a pattern admits is what it matches on some command line. -/
theorem Admits.derives {p : Pattern} {leaves : List Leaf} (h : Admits p leaves) :
    ∃ ms, Derives (leaves.map Leaf.token) p (everything (leaves.map Leaf.token)) [] ms ∧
      ms.map LeafMatch.leaf = leaves := by
  have hsuits : List.Forall₂ Suits leaves (leaves.map Leaf.token) :=
    List.forall₂_map_right_iff.mpr (List.forall₂_same.mpr fun l _ => suits_token l)
  have hn : (everything (leaves.map Leaf.token) ++ []).Nodup := by
    rw [List.append_nil]
    exact List.nodup_range
  have hd := h _ _ [] (suitAt_everything hsuits) hn
  rwa [List.append_nil] at hd

/-- **Multiplicity is exact about what can be repeated.** A name has a multiplicity above one
exactly if its leaves consume two tokens or more in some derivation that consumes a whole command
line, and none at all exactly if no leaf has it. -/
theorem multiplicity_exact {p : Pattern} (hp : p.Branched) :
    (2 ≤ p.multiplicity name ↔ ∃ tokens ms, Derives tokens p (everything tokens) [] ms ∧
      2 ≤ (matchesOf name ms).length) ∧
    (p.multiplicity name = 0 ↔ ∀ l ∈ p.leaves, l.name ≠ name) := by
  refine ⟨⟨fun h => ?_, ?_⟩, multiplicity_eq_zero name p⟩
  · obtain ⟨leaves, ha, hc⟩ := exists_admits name p hp
    obtain ⟨ms, hd, hms⟩ := ha.derives
    refine ⟨leaves.map Leaf.token, ms, hd, ?_⟩
    rwa [length_matchesOf, hms, hc]
  · rintro ⟨tokens, ms, hd, htwo⟩
    by_contra hlt
    have hle := hd.length_matchesOf_le name (by omega)
    omega

end Attained

/-- A command or a flag, repeated: either can be given twice, and there is nothing else. -/
theorem multiplicity_exact_repeated_choice :
    (Pattern.oneOrMore (.either [.leaf (.command "go"),
      .optional [.ofOption { short := some "-v" }]])).Branched ∧
    (∃ tokens ms, Derives tokens (.oneOrMore (.either [.leaf (.command "go"),
      .optional [.ofOption { short := some "-v" }]])) (everything tokens) [] ms ∧
      2 ≤ (matchesOf "-v" ms).length) ∧
    (Pattern.oneOrMore (.either [.leaf (.command "go"),
      .optional [.ofOption { short := some "-v" }]])).multiplicity "<x>" = 0 := by
  have hp : (Pattern.oneOrMore (.either [.leaf (.command "go"),
      .optional [.ofOption { short := some "-v" }]])).Branched := by
    simp [Pattern.Branched, Pattern.BranchedAll, Pattern.ofOption]
  exact ⟨hp, (multiplicity_exact "-v" hp).1.mp (by decide),
    (multiplicity_exact "<x>" hp).2.mpr (by decide)⟩

end Matching

end Synopsis
