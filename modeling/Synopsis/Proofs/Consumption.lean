import Synopsis.Matching

/-!
# What a leaf consumes

`Consumes` says which of the tokens left a leaf takes and with which value: a positional leaf the
first one that is no option, if it suits the leaf, and an option leaf the first one of its option.
`leafOutcome?` computes just that.
-/

namespace Synopsis

/-- The token is an option with the given canonical name. -/
def Token.isOptionOf (name : String) (t : Token) : Bool :=
  t.option?.any (·.name == name)

/-- The tokens among which a leaf takes the first one. -/
def Leaf.kind : Leaf → Token → Bool
  | .command _ => Token.isPositional
  | .argument _ => Token.isPositional
  | .option o => Token.isOptionOf o.name

theorem Leaf.kind_eq {l k : Leaf} (hn : l.name = k.name)
    (ho : l.option?.isSome = k.option?.isSome) : l.kind = k.kind := by
  cases l <;> cases k <;> first | rfl | exact congrArg Token.isOptionOf hn | simp [option?] at ho

namespace Matching

variable (tokens : List Token)

/-- The token at `i` is left, is of the kind, and no token left before it is. -/
def FirstLeft (kind : Token → Bool) (left : List Nat) (i : Nat) (t : Token) : Prop :=
  ∃ before after, left = before ++ i :: after ∧ tokens[i]? = some t ∧ kind t = true ∧
    ∀ j ∈ before, ∀ u, tokens[j]? = some u → kind u = false

/-- The leaf takes the token at `i`, which gives it the value. -/
inductive Consumes : Leaf → List Nat → Nat → Value → Prop
  | command {name left i t} : FirstLeft tokens Token.isPositional left i t → t.raw = name →
      t = .plain t.raw ∨ name = "--" → Consumes (.command name) left i (.flag true)
  | argument {name left i raw} : FirstLeft tokens Token.isPositional left i (.plain raw) →
      Consumes (.argument name) left i (.text raw)
  | option {o left i t} : FirstLeft tokens (Token.isOptionOf o.name) left i t →
      Consumes (.option o) left i t.value

variable {tokens}

/-- A search for the first token of a kind. -/
theorem findSome?_eq_some {kind : Token → Bool} {left : List Nat} {i : Nat} {t : Token} :
    (left.findSome? fun j =>
      match tokens[j]? with
      | some u => if kind u then some (j, u) else none
      | none => none) = some (i, t) ↔ FirstLeft tokens kind left i t := by
  rw [List.findSome?_eq_some_iff]
  constructor
  · rintro ⟨before, j, after, hl, hj, hb⟩
    cases ht : tokens[j]? with
    | none => simp [ht] at hj
    | some u =>
      by_cases hu : kind u = true
      · simp only [ht, hu, if_true, Option.some.injEq, Prod.mk.injEq] at hj
        obtain ⟨rfl, rfl⟩ := hj
        refine ⟨before, after, hl, ht, hu, fun k hk v hv => ?_⟩
        simpa [hv] using hb k hk
      · simp [ht, hu] at hj
  · rintro ⟨before, after, hl, ht, hk, hb⟩
    refine ⟨before, i, after, hl, by simp [ht, hk], fun j hj => ?_⟩
    cases hu : tokens[j]? with
    | none => rfl
    | some u => simp [hb j hj u hu]

theorem firstPositional?_eq_some {left : List Nat} {i : Nat} {t : Token} :
    firstPositional? tokens left = some (i, t) ↔ FirstLeft tokens Token.isPositional left i t :=
  findSome?_eq_some

theorem firstOption?_eq_some {name : String} {left : List Nat} {i : Nat} {t : Token} :
    firstOption? tokens name left = some (i, t) ↔
      FirstLeft tokens (Token.isOptionOf name) left i t :=
  findSome?_eq_some

/-- Where the places left are in order, the first token of a kind is the one before which no place
left has the kind. -/
theorem firstLeft_iff {kind : Token → Bool} {left : List Nat} {i : Nat} {t : Token}
    (hs : left.Pairwise (· < ·)) :
    FirstLeft tokens kind left i t ↔ i ∈ left ∧ tokens[i]? = some t ∧ kind t = true ∧
      ∀ j ∈ left, j < i → ∀ u, tokens[j]? = some u → kind u = false := by
  constructor
  · rintro ⟨before, after, rfl, ht, hk, hb⟩
    refine ⟨by simp, ht, hk, fun j hj hlt u hu => ?_⟩
    rcases List.mem_append.mp hj with hj | hj
    · exact hb j hj u hu
    · obtain ⟨-, hrest, -⟩ := List.pairwise_append.mp hs
      rcases List.mem_cons.mp hj with rfl | hj
      · omega
      · have hij := (List.pairwise_cons.mp hrest).1 j hj
        omega
  · rintro ⟨hi, ht, hk, hb⟩
    obtain ⟨before, after, rfl⟩ := List.append_of_mem hi
    refine ⟨before, after, rfl, ht, hk, fun j hj => hb j (List.mem_append_left _ hj) ?_⟩
    exact (List.pairwise_append.mp hs).2.2 j hj i List.mem_cons_self

theorem FirstLeft.mem {kind : Token → Bool} {left : List Nat} {i : Nat} {t : Token}
    (h : FirstLeft tokens kind left i t) : i ∈ left := by
  obtain ⟨before, after, rfl, _⟩ := h
  simp

/-- A leaf consumes the first token left of its kind. -/
theorem Consumes.firstLeft {l : Leaf} {left : List Nat} {i : Nat} {v : Value}
    (h : Consumes tokens l left i v) : ∃ t, FirstLeft tokens l.kind left i t := by
  cases h with
  | command h => exact ⟨_, h⟩
  | argument h => exact ⟨_, h⟩
  | option h => exact ⟨_, h⟩

theorem Consumes.token {l : Leaf} {left : List Nat} {i : Nat} {v : Value}
    (h : Consumes tokens l left i v) : ∃ t, tokens[i]? = some t ∧ l.kind t = true := by
  obtain ⟨t, before, after, -, ht, hk, -⟩ := h.firstLeft
  exact ⟨t, ht, hk⟩

theorem Consumes.mem {l : Leaf} {left : List Nat} {i : Nat} {v : Value}
    (h : Consumes tokens l left i v) : i ∈ left := by
  obtain ⟨t, ht⟩ := h.firstLeft
  exact ht.mem

/-- The outcome of a leaf is that of consuming some token. -/
theorem consumes_of_leafOutcome? {l : Leaf} {left : List Nat} {o : Outcome}
    (h : leafOutcome? tokens l left = some o) :
    ∃ i v, Consumes tokens l left i v ∧ o = consume l left i v := by
  cases l with
  | command name =>
    rw [leafOutcome?] at h
    cases hf : firstPositional? tokens left with
    | none => simp [hf] at h
    | some found =>
      obtain ⟨i, t⟩ := found
      have hc := firstPositional?_eq_some.mp hf
      rw [hf] at h
      cases t with
      | plain raw =>
        by_cases hr : raw = name
        · simp only [hr, if_true, Option.some.injEq] at h
          exact ⟨i, .flag true, .command hc hr (.inl rfl), h.symm⟩
        · simp [hr] at h
      | marker raw =>
        by_cases hr : raw = name ∧ name = "--"
        · simp only [hr, and_self, if_true, Option.some.injEq] at h
          exact ⟨i, .flag true, .command hc hr.1 (.inr hr.2), by rw [hr.2]; exact h.symm⟩
        · simp [hr] at h
      | option o raw value => simp at h
  | argument name =>
    rw [leafOutcome?] at h
    cases hf : firstPositional? tokens left with
    | none => simp [hf] at h
    | some found =>
      obtain ⟨i, t⟩ := found
      have hc := firstPositional?_eq_some.mp hf
      rw [hf] at h
      cases t with
      | plain raw => exact ⟨i, .text raw, .argument hc, (Option.some.inj h).symm⟩
      | marker raw => simp at h
      | option o raw value => simp at h
  | option o =>
    rw [leafOutcome?, Option.map_eq_some_iff] at h
    obtain ⟨⟨i, t⟩, hf, rfl⟩ := h
    exact ⟨i, t.value, .option (firstOption?_eq_some.mp hf), rfl⟩

/-- A leaf that consumes a token has the outcome of doing so. -/
theorem Consumes.leafOutcome? {l : Leaf} {left : List Nat} {i : Nat} {v : Value}
    (h : Consumes tokens l left i v) : leafOutcome? tokens l left = some (consume l left i v) := by
  cases h with
  | @command name left i t hf hr hk =>
    rw [Matching.leafOutcome?, firstPositional?_eq_some.mpr hf]
    obtain ⟨before, after, -, -, hpos, -⟩ := hf
    cases t with
    | plain raw => simpa [Token.raw] using hr
    | marker raw =>
      have hname : name = "--" := by simpa using hk
      rw [Token.raw] at hr
      simp [hr, hname]
    | option o raw value => simp [Token.isPositional, Token.option?] at hpos
  | argument hf => rw [Matching.leafOutcome?, firstPositional?_eq_some.mpr hf]
  | option hf =>
    rw [Matching.leafOutcome?, firstOption?_eq_some.mpr hf]
    rfl

/-- **A leaf has the outcome of what it consumes**, and no other. -/
theorem leafOutcome?_eq_some {l : Leaf} {left : List Nat} {o : Outcome} :
    leafOutcome? tokens l left = some o ↔
      ∃ i v, Consumes tokens l left i v ∧ o = consume l left i v := by
  constructor
  · exact consumes_of_leafOutcome?
  · rintro ⟨i, v, hc, rfl⟩
    exact hc.leafOutcome?

end Matching

end Synopsis
