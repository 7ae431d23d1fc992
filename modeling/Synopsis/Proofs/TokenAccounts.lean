import Synopsis.Proofs.Locality
import Synopsis.Proofs.Transcript

/-!
# The tokens that an outcome accounts for

The matches of an outcome can be replayed: one after the other, each takes the first token of its
kind among those that the ones before it left. So no token is taken twice, the tokens left keep
their order, and matches of one kind stand in the order of their tokens. This holds of every answer
of a search, whatever memos it is resumed with.
-/

namespace Synopsis

namespace Search.All

variable {μ α : Type} {ok good : α → Prop} {s : Search μ α}

theorem imp (h : All ok s) (hi : ∀ a, ok a → good a) : All good s := by
  induction h with
  | done => exact .done
  | yield hv _ ih => exact .yield (hi _ hv) ih

theorem of_mem_toList (h : All ok s) : ∀ a ∈ s.toList, ok a := by
  induction h with
  | done => exact nofun
  | @yield value memo resume hv _ ih =>
    rw [toList]
    exact List.forall_mem_cons.mpr ⟨hv, ih memo⟩

end Search.All

/-- The leaf can take the token, which gives it the value. -/
inductive Leaf.Fits : Leaf → Token → Value → Prop
  | command (name : String) : Fits (.command name) (.plain name) (.flag true)
  | marker : Fits (.command "--") (.marker "--") (.flag true)
  | argument (name raw : String) : Fits (.argument name) (.plain raw) (.text raw)
  | flag {o given : OptionDef} (raw : String) : given.name = o.name →
      Fits (.option o) (.option given raw none) (.flag true)
  | valued {o given : OptionDef} (raw v : String) : given.name = o.name →
      Fits (.option o) (.option given raw (some v)) (.text v)

namespace Leaf.Fits

variable {l : Leaf} {t : Token} {v : Value}

/-- A leaf that takes a positional token looks for positional tokens. -/
theorem kind_of_positional (h : l.Fits t v)
    (ht : t.isPositional = true) : l.kind = Token.isPositional := by
  cases h with
  | command => rfl
  | marker => rfl
  | argument => rfl
  | flag => exact nomatch ht
  | valued => exact nomatch ht

theorem kind_of_option {name : String} (h : l.Fits t v)
    (ht : t.isOptionOf name = true) : l.kind = Token.isOptionOf name := by
  cases h with
  | command => exact nomatch ht
  | marker => exact nomatch ht
  | argument => exact nomatch ht
  | flag _ hname => exact congrArg Token.isOptionOf (hname.symm.trans (beq_iff_eq.mp ht))
  | valued _ _ hname => exact congrArg Token.isOptionOf (hname.symm.trans (beq_iff_eq.mp ht))

end Leaf.Fits

namespace Matching

open Search (All)

variable {μ κ : Type} [BEq κ] [Hashable κ] {tokens : List Token} {p : Pattern}

variable (tokens) in
/-- The outcome is one that the pattern derives. -/
def Derived (p : Pattern) (left : List Nat) (o : Outcome) : Prop :=
  Derives tokens p left o.left o.matched

variable (tokens) in
def DerivedAll (skipping : Bool) (ps : List Pattern) (left : List Nat) (o : Outcome) : Prop :=
  DerivesAll tokens skipping ps left o.left o.matched

theorem derived_repeated {once : List Nat → μ → Search μ Outcome}
    (h : ∀ left memo, All (Derived tokens p left) (once left memo)) (rounds : Nat) :
    ∀ left memo, All (Derived tokens (.oneOrMore p) left) (repeated once rounds left memo) := by
  induction rounds with
  | zero => exact fun left memo => (h left memo).imp fun _ ho => Derives.once ho
  | succ n ih =>
    intro left memo
    rw [repeated]
    refine (h left memo).bind fun o ho m => ?_
    have honce : Derived tokens (.oneOrMore p) left o := Derives.once ho
    by_cases hsame : o.left = left
    · rw [if_pos hsame]
      exact .pure honce
    · rw [if_neg hsame]
      -- what is matched so far stands in front of what the further rounds match
      refine .append (.map (ih o.left m) fun more hmore => ?_) fun _ => .pure honce
      exact Derives.again ho hmore

mutual

/-- **Every answer of a search is a derivation**, whatever memos it is resumed with. -/
theorem derived_outcomes : ∀ (n : Node κ) (left : List Nat) (memo : Failures κ),
    All (Derived tokens n.pattern left) (n.outcomes tokens left memo)
  | .leaf _ l, left, memo => by
    rw [Node.outcomes]
    refine all_remember fun m => ?_
    cases hl : leafOutcome? tokens l left with
    | none => exact .done
    | some o =>
      obtain ⟨i, v, hc, rfl⟩ := leafOutcome?_eq_some.mp hl
      exact .pure (Derives.leaf hc)
  | .required _ ns, left, memo => by
    rw [Node.outcomes]
    exact all_remember fun m => (derived_sequence false ns left m).imp fun _ => Derives.required
  | .optional _ ns, left, memo => by
    rw [Node.outcomes]
    exact all_remember fun m => (derived_sequence true ns left m).imp fun _ => Derives.optional
  | .shortcut _ ns, left, memo => by
    rw [Node.outcomes]
    exact all_remember fun m => (derived_sequence true ns left m).imp fun _ => Derives.shortcut
  | .either _ ns, left, memo => by
    rw [Node.outcomes]
    refine all_remember fun m => (derived_alternatives ns left m).imp fun _ ho => ?_
    obtain ⟨p, hp, hd⟩ := ho
    exact Derives.either hp hd
  | .oneOrMore _ n, left, memo => by
    rw [Node.outcomes]
    exact all_remember (derived_repeated (derived_outcomes n) left.length left)

theorem derived_sequence (skipping : Bool) : ∀ (ns : List (Node κ)) (left : List Nat)
    (memo : Failures κ), All (DerivedAll tokens skipping (Node.patterns ns) left)
      (Node.sequence tokens skipping ns left memo)
  | [], left, memo => by
    rw [Node.sequence]
    exact .pure DerivesAll.nil
  | n :: ns, left, memo => by
    rw [Node.sequence]
    refine ((derived_outcomes n left memo).bind fun o ho m => ?_).append fun m => ?_
    · refine .map (derived_sequence skipping ns o.left m) fun more hmore => ?_
      exact DerivesAll.cons ho hmore
    · cases skipping with
      | true => exact (derived_sequence true ns left m).imp fun _ => DerivesAll.skip
      | false => exact .done

theorem derived_alternatives : ∀ (ns : List (Node κ)) (left : List Nat) (memo : Failures κ),
    All (fun o => ∃ p ∈ Node.patterns ns, Derived tokens p left o)
      (Node.alternatives tokens ns left memo)
  | [], left, memo => by
    rw [Node.alternatives]
    exact .done
  | n :: ns, left, memo => by
    rw [Node.alternatives]
    refine ((derived_outcomes n left memo).imp fun _ ho => ?_).append fun m =>
      (derived_alternatives ns left m).imp fun _ ho => ?_
    · exact ⟨n.pattern, List.mem_cons_self, ho⟩
    · obtain ⟨q, hq, hd⟩ := ho
      exact ⟨q, List.mem_cons_of_mem _ hq, hd⟩

end

variable (tokens) in
/-- **The matches can be replayed**: each takes its token from those that the ones before it
left. -/
inductive Replays : List Nat → List LeafMatch → List Nat → Prop
  | nil {left} : Replays left [] left
  | cons {l left i v ms rest} : Consumes tokens l left i v →
      Replays (left.filter (· != i)) ms rest → Replays left (⟨l, i, v⟩ :: ms) rest

variable {left rest : List Nat} {ms : List LeafMatch}

theorem Replays.append {mid : List Nat} {more : List LeafMatch} (h : Replays tokens left ms mid)
    (k : Replays tokens mid more rest) : Replays tokens left (ms ++ more) rest := by
  induction h with
  | nil => exact k
  | cons hc _ ih => exact .cons hc (ih k)

mutual

theorem Derives.replays : ∀ {p left rest ms}, Derives tokens p left rest ms →
    Replays tokens left ms rest
  | _, _, _, _, .leaf h => .cons h .nil
  | _, _, _, _, .required h => h.replays
  | _, _, _, _, .optional h => h.replays
  | _, _, _, _, .shortcut h => h.replays
  | _, _, _, _, .either _ h => h.replays
  | _, _, _, _, .once h => h.replays
  | _, _, _, _, .again h k => h.replays.append k.replays

theorem DerivesAll.replays : ∀ {skipping ps left rest ms},
    DerivesAll tokens skipping ps left rest ms → Replays tokens left ms rest
  | _, _, _, _, _, .nil => .nil
  | _, _, _, _, _, .cons h k => h.replays.append k.replays
  | _, _, _, _, _, .skip h => h.replays

end

/-- What is left is what no match took, in its old order. -/
theorem Replays.rest_eq (h : Replays tokens left ms rest) :
    rest = left.filter (· ∉ ms.map LeafMatch.index) := by
  induction h with
  | nil => simp
  | @cons l left i v ms rest _ _ ih =>
    rw [ih, List.filter_filter]
    refine List.filter_congr fun j _ => ?_
    rw [Bool.eq_iff_iff]
    simp [and_comm]

theorem Replays.mem_left (h : Replays tokens left ms rest) : ∀ m ∈ ms, m.index ∈ left := by
  induction h with
  | nil => exact nofun
  | cons hc _ ih =>
    exact List.forall_mem_cons.mpr ⟨hc.mem, fun m hm => (List.mem_filter.mp (ih m hm)).1⟩

theorem Replays.kind (h : Replays tokens left ms rest) :
    ∀ m ∈ ms, ∃ t, tokens[m.index]? = some t ∧ m.leaf.kind t = true := by
  induction h with
  | nil => exact nofun
  | cons hc _ ih => exact List.forall_mem_cons.mpr ⟨hc.token, ih⟩

/-- **Matches of one kind stand in the order of their tokens.** -/
theorem Replays.ordered (h : Replays tokens left ms rest) (hs : left.Pairwise (· < ·)) :
    ms.Pairwise fun m q => m.leaf.kind = q.leaf.kind → m.index < q.index := by
  induction h with
  | nil => exact .nil
  | @cons l left i v ms rest hc hms ih =>
    refine List.pairwise_cons.mpr ⟨fun q hq hkind => ?_, ih (hs.filter _)⟩
    obtain ⟨hq', hne⟩ := List.mem_filter.mp (hms.mem_left q hq)
    obtain ⟨t, hfirst⟩ := hc.firstLeft
    obtain ⟨-, -, -, hbefore⟩ := (firstLeft_iff hs).mp hfirst
    obtain ⟨u, hu, hk⟩ := hms.kind q hq
    -- an earlier token of the kind would have been the first one
    have hle : i ≤ q.index := by
      by_contra hlt
      have hno := hbefore q.index hq' (Nat.lt_of_not_le hlt) u hu
      rw [show l.kind = q.leaf.kind from hkind, hk] at hno
      exact nomatch hno
    have hdiff : i ≠ q.index := fun heq => by simp [heq] at hne
    exact Nat.lt_of_le_of_ne hle hdiff

/-- What a leaf takes fits it. -/
theorem Consumes.fits {l : Leaf} {left : List Nat} {i : Nat} {v : Value}
    (h : Consumes tokens l left i v) : ∃ t, tokens[i]? = some t ∧ l.Fits t v := by
  cases h with
  | @command name _ _ t hf hr hk =>
    obtain ⟨-, -, -, ht, hpos, -⟩ := hf
    refine ⟨t, ht, ?_⟩
    subst hr
    cases t with
    | plain raw => exact .command raw
    | marker raw =>
      have hraw : raw = "--" := by simpa [Token.raw] using hk
      subst hraw
      exact .marker
    | option o raw value => exact absurd hpos Bool.false_ne_true
  | argument hf =>
    obtain ⟨-, -, -, ht, -⟩ := hf
    exact ⟨_, ht, .argument _ _⟩
  | @option o _ _ t hf =>
    obtain ⟨-, -, -, ht, hk, -⟩ := hf
    refine ⟨t, ht, ?_⟩
    cases t with
    | plain raw => exact absurd hk Bool.false_ne_true
    | marker raw => exact absurd hk Bool.false_ne_true
    | option given raw value =>
      have hname : given.name = o.name := beq_iff_eq.mp hk
      cases value with
      | none => exact .flag raw hname
      | some v => exact .valued raw v hname

variable (tokens) in
/-- The places of the tokens of a kind, in the order in which they were matched. -/
def placesTaken (kind : Token → Bool) (ms : List LeafMatch) : List Nat :=
  (ms.filter fun m => tokens[m.index]?.any kind).map LeafMatch.index

variable (tokens) in
/-- **The outcome accounts for the tokens that there were**: some are matched, each of them once and
by a leaf of the pattern that it fits, and the others are left. -/
structure Accounts (p : Pattern) (left : List Nat) (o : Outcome) : Prop where
  taken : ∀ m ∈ o.matched, m.index ∈ left
  once : (o.matched.map LeafMatch.index).Nodup
  others : o.left = left.filter (· ∉ o.matched.map LeafMatch.index)
  leaves : ∀ m ∈ o.matched, m.leaf ∈ p.leaves
  fits : ∀ m ∈ o.matched, ∃ t, tokens[m.index]? = some t ∧ m.leaf.Fits t m.value
  positionals : (placesTaken tokens Token.isPositional o.matched).Pairwise (· < ·)
  options : ∀ name, (placesTaken tokens (Token.isOptionOf name) o.matched).Pairwise (· < ·)

/-- Tokens of a kind are taken in their order if only leaves that look for the kind take them. -/
theorem Replays.increasing_placesTaken {kind : Token → Bool} (h : Replays tokens left ms rest)
    (hs : left.Pairwise (· < ·))
    (hk : ∀ m ∈ ms, ∀ t, tokens[m.index]? = some t → kind t = true → m.leaf.kind = kind) :
    (placesTaken tokens kind ms).Pairwise (· < ·) := by
  have hkind : ∀ m ∈ ms.filter fun m => tokens[m.index]?.any kind, m.leaf.kind = kind := by
    intro m hm
    obtain ⟨hm, hany⟩ := List.mem_filter.mp hm
    obtain ⟨t, ht, hkt⟩ := (Option.any_eq_true _ _).mp hany
    exact hk m hm t ht hkt
  rw [placesTaken, List.pairwise_map]
  refine ((h.ordered hs).filter _).imp_of_mem fun hm hq hlt => hlt ?_
  rw [hkind _ hm, hkind _ hq]

theorem Derives.accounts (h : Derives tokens p left rest ms) (hs : left.Pairwise (· < ·)) :
    Accounts tokens p left ⟨rest, ms⟩ := by
  have hperm := h.account hs.nodup
  have hfits : ∀ m ∈ ms, ∃ t, tokens[m.index]? = some t ∧ m.leaf.Fits t m.value := by
    intro m hm
    obtain ⟨-, _, hc⟩ := h.match_mem m hm
    exact hc.fits
  refine ⟨h.replays.mem_left, ?_, h.replays.rest_eq, fun m hm => (h.match_mem m hm).1, hfits, ?_,
    fun name => ?_⟩
  · exact (List.nodup_append.mp (hperm.nodup_iff.mpr hs.nodup)).1
  · refine h.replays.increasing_placesTaken hs fun m hm t ht hpos => ?_
    obtain ⟨u, hu, hf⟩ := hfits m hm
    obtain rfl := Option.some.inj (ht.symm.trans hu)
    exact hf.kind_of_positional hpos
  · refine h.replays.increasing_placesTaken hs fun m hm t ht hopt => ?_
    obtain ⟨u, hu, hf⟩ := hfits m hm
    obtain rfl := Option.some.inj (ht.symm.trans hu)
    exact hf.kind_of_option hopt

/-- **Every outcome accounts for the tokens that there were**, whatever the memo holds, also of
patterns that are gone. -/
theorem outcomes_account (hs : left.Pairwise (· < ·)) (p : Pattern) (memo : Memo) :
    All (Accounts tokens p left) (outcomes tokens p left memo) := by
  refine (derived_outcomes (.ofPattern p) left memo).imp fun _ h => ?_
  rw [Node.pattern_ofPattern] at h
  exact h.accounts hs

/-- Arguments and a flag take turns. The flag is tried first each time, so the matches are not in
the order of their tokens. -/
theorem outcomes_account_mixed :
    [0, 1, 2, 4].Pairwise (· < ·) ∧
    ∃ o ∈ (outcomes [.option { short := some "-v" } "-v" none, .plain "a",
        .option { short := some "-v" } "-v" none, .plain "taken", .plain "b"]
        (.oneOrMore (.either [.leaf (.option { short := some "-v" }), .leaf (.argument "<x>")]))
        [0, 1, 2, 4] ∅).toList,
      o.left = [] ∧ Accounts [.option { short := some "-v" } "-v" none, .plain "a",
        .option { short := some "-v" } "-v" none, .plain "taken", .plain "b"]
        (.oneOrMore (.either [.leaf (.option { short := some "-v" }), .leaf (.argument "<x>")]))
        [0, 1, 2, 4] o := by
  let tokens : List Token := [.option { short := some "-v" } "-v" none, .plain "a",
    .option { short := some "-v" } "-v" none, .plain "taken", .plain "b"]
  let flag : Leaf := .option { short := some "-v" }
  let argument : Leaf := .argument "<x>"
  let choice : Pattern := .either [.leaf flag, .leaf argument]
  have hplain : ∀ j ∈ [1], ∀ t, tokens[j]? = some t → Token.isOptionOf "-v" t = false := by
    intro j hj t ht
    obtain rfl := List.mem_singleton.mp hj
    obtain rfl := Option.some.inj ht
    rfl
  have hflag : Consumes tokens flag [0, 1, 2, 4] 0 (.flag true) :=
    .option (t := .option { short := some "-v" } "-v" none) ⟨[], [1, 2, 4], rfl, rfl, rfl, nofun⟩
  have hagain : Consumes tokens flag [1, 2, 4] 2 (.flag true) :=
    .option (t := .option { short := some "-v" } "-v" none) ⟨[1], [4], rfl, rfl, rfl, hplain⟩
  have hword : Consumes tokens argument [1, 4] 1 (.text "a") :=
    .argument ⟨[], [4], rfl, rfl, rfl, nofun⟩
  have hlast : Consumes tokens argument [4] 4 (.text "b") :=
    .argument ⟨[], [], rfl, rfl, rfl, nofun⟩
  have hfirst : Pattern.leaf flag ∈ [.leaf flag, .leaf argument] := List.mem_cons_self
  have hsecond : Pattern.leaf argument ∈ [.leaf flag, .leaf argument] :=
    List.mem_cons_of_mem _ List.mem_cons_self
  have hall : Derives tokens (.oneOrMore choice) [0, 1, 2, 4] [] _ :=
    .again (.either hfirst (.leaf hflag)) (.again (.either hfirst (.leaf hagain))
      (.again (.either hsecond (.leaf hword)) (.once (.either hsecond (.leaf hlast)))))
  have hs : [0, 1, 2, 4].Pairwise (· < ·) := by decide
  obtain ⟨o, ho, hleft⟩ :
      ∃ o ∈ (outcomes tokens (.oneOrMore choice) [0, 1, 2, 4] ∅).toList, o.left = [] := by
    rw [toList_outcomes sound_empty]
    exact List.mem_map.mp (mem_lefts_firsts.mpr hall.mem_lefts)
  exact ⟨hs, o, ho, hleft, (outcomes_account hs (.oneOrMore choice) ∅).of_mem_toList o ho⟩

end Matching

end Synopsis
