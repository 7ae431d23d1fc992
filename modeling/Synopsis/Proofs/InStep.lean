import Mathlib.Data.List.Forall2
import Synopsis.Proofs.Binding

/-!
# Leaves and tokens in step

A row of leaves matches a row of tokens that suit them one by one, and in one way only: the first
token left is the first one of whatever kind its leaf asks for, so each leaf takes the token that
stands where it stands.
-/

namespace Synopsis

namespace Matching

/-- The token is what the leaf spells out: the word of a command or an argument as it stands in the
usage line, or the option. -/
inductive Suits : Leaf → Token → Prop
  | command (raw : String) : Suits (.command raw) (.plain raw)
  | argument (raw : String) : Suits (.argument raw) (.plain raw)
  | option (o : OptionDef) (raw : String) (value : Option String) :
      Suits (.option o) (.option o raw value)

variable {tokens : List Token} {l : Leaf} {t : Token} {i : Nat} {later : List Nat}

theorem Suits.kind (h : Suits l t) : l.kind t = true := by
  cases h with
  | command => rfl
  | argument => rfl
  | option o => exact beq_self_eq_true o.name

theorem Suits.option? (h : Suits l t) : t.option? = l.option? := by
  cases h <;> rfl

theorem filterMap_option? {leaves : List Leaf} {tokens : List Token}
    (h : List.Forall₂ Suits leaves tokens) :
    tokens.filterMap Token.option? = leaves.filterMap Leaf.option? := by
  induction h with
  | nil => rfl
  | cons h _ ih => rw [List.filterMap_cons, List.filterMap_cons, h.option?, ih]

/-- A leaf takes the first token left if that suits it. -/
theorem Suits.consumes (h : Suits l t) (ht : tokens[i]? = some t) :
    ∃ v, Consumes tokens l (i :: later) i v := by
  have hfirst : FirstLeft tokens l.kind (i :: later) i t := ⟨[], later, rfl, ht, h.kind, nofun⟩
  cases h with
  | command raw => exact ⟨_, .command hfirst rfl (.inl rfl)⟩
  | argument raw => exact ⟨_, .argument hfirst⟩
  | option o raw value => exact ⟨_, .option hfirst⟩

theorem Suits.eq_of_consumes (h : Suits l t) (ht : tokens[i]? = some t) {j : Nat} {v : Value}
    (hc : Consumes tokens l (i :: later) j v) : j = i := by
  obtain ⟨u, before, after, heq, -, -, hbefore⟩ := hc.firstLeft
  cases before with
  | nil => exact (List.cons.inj heq).1.symm
  | cons k before =>
    obtain rfl := (List.cons.inj heq).1
    have hkind := hbefore i List.mem_cons_self t ht
    rw [h.kind] at hkind
    exact nomatch hkind

theorem filter_ne_head (hi : i ∉ later) : (i :: later).filter (· != i) = later := by
  rw [List.filter_cons, if_neg (by simp), List.filter_eq_self]
  intro j hj
  exact bne_iff_ne.mpr fun h => hi (h ▸ hj)

/-- The tokens at these places suit the leaves one by one. -/
def SuitAt (tokens : List Token) : List Leaf → List Nat → Prop :=
  List.Forall₂ fun l i => ∃ t, tokens[i]? = some t ∧ Suits l t

theorem suitAt_everything {leaves : List Leaf} (h : List.Forall₂ Suits leaves tokens) :
    SuitAt tokens leaves (everything tokens) := by
  have hlen : leaves.length = (everything tokens).length := by
    rw [h.length_eq, everything, List.length_range]
  refine List.forall₂_iff_get.mpr ⟨hlen, fun n hn hm => ?_⟩
  have ht : n < tokens.length := h.length_eq ▸ hn
  refine ⟨tokens[n], ?_, (List.forall₂_iff_get.mp h).2 n hn ht⟩
  simp [everything, ht]

theorem derivesAll_of_suitAt {leaves : List Leaf} {left : List Nat} (h : SuitAt tokens leaves left)
    (hn : left.Nodup) :
    ∃ ms, DerivesAll tokens false (leaves.map Pattern.leaf) left [] ms := by
  induction h with
  | nil => exact ⟨[], .nil⟩
  | @cons l i leaves later hl _ ih =>
    obtain ⟨t, ht, hs⟩ := hl
    obtain ⟨hi, hlater⟩ := List.nodup_cons.mp hn
    obtain ⟨v, hv⟩ := hs.consumes ht
    obtain ⟨ms, hms⟩ := ih hlater
    have hrest : DerivesAll tokens false (leaves.map Pattern.leaf)
        ((i :: later).filter (· != i)) [] ms := by
      rwa [filter_ne_head hi]
    exact ⟨_, .cons (.leaf hv) hrest⟩

/-- In whatever way the leaves match, each takes the token that suits it. -/
theorem in_step_of_derivesAll {leaves : List Leaf} {left rest : List Nat} {ms : List LeafMatch}
    (h : SuitAt tokens leaves left) (hn : left.Nodup)
    (hd : DerivesAll tokens false (leaves.map Pattern.leaf) left rest ms) :
    ms.map LeafMatch.leaf = leaves ∧ ms.map LeafMatch.index = left := by
  induction h generalizing ms with
  | nil =>
    cases hd with
    | nil => exact ⟨rfl, rfl⟩
  | cons hl _ ih =>
    obtain ⟨t, ht, hs⟩ := hl
    obtain ⟨hi, hlater⟩ := List.nodup_cons.mp hn
    cases hd with
    | cons hfirst hmore =>
      cases hfirst with
      | leaf hc =>
        obtain rfl := hs.eq_of_consumes ht hc
        rw [filter_ne_head hi] at hmore
        obtain ⟨hleaves, hindices⟩ := ih hlater hmore
        exact ⟨congrArg (_ :: ·) hleaves, congrArg (_ :: ·) hindices⟩

/-- **A usage line of leaves matches tokens that suit them**, the first leaf the first token, and so
on to the last. -/
theorem run_in_step {leaves : List Leaf} (h : List.Forall₂ Suits leaves tokens) :
    ∃ ms, (run tokens (.either [.required (leaves.map .leaf)])).matched = some ms ∧
      ms.map LeafMatch.leaf = leaves ∧ ms.map LeafMatch.index = List.range tokens.length := by
  have hsuit := suitAt_everything h
  obtain ⟨ms₀, hd₀⟩ := derivesAll_of_suitAt hsuit List.nodup_range
  have hline : Derives tokens (.either [.required (leaves.map .leaf)]) (everything tokens) [] ms₀ :=
    .either List.mem_cons_self (.required hd₀)
  have hsome := (settle_isSome_iff sound_empty _ (everything tokens)).mpr ⟨ms₀, hline⟩
  obtain ⟨ms, hrun⟩ := Option.isSome_iff_exists.mp hsome
  refine ⟨ms, hrun, ?_⟩
  cases derives_of_run hrun with
  | either hp hd =>
    obtain rfl := List.mem_singleton.mp hp
    cases hd with
    | required hd => exact in_step_of_derivesAll hsuit List.nodup_range hd

end Matching

end Synopsis
