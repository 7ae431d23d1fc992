import Synopsis.Node

/-!
# Nodes that exist together

Of nodes that exist at the same time no two have one identity. Nodes exist together if with each of
them the nodes below it are there. The nodes of given patterns do, and so do all patterns that are
their own identities.
-/

namespace Synopsis.Node

variable {κ : Type}

/-- The first node is the second one or stands somewhere below it. -/
inductive Within : Node κ → Node κ → Prop
  | self {n} : Within n n
  | child {n c m} : c ∈ m.children → Within n c → Within n m

/-- The node belongs to one of the patterns. -/
def Among (ns : List (Node κ)) (n : Node κ) : Prop :=
  ∃ m ∈ ns, Within n m

/-- **An identity stands for one node.** -/
def Apart (known : Node κ → Prop) : Prop :=
  ∀ m n, known m → known n → m.identity = n.identity → m = n

/-- Nodes told apart by their identities, with all that is below them. -/
structure Together (known : Node κ → Prop) : Prop where
  apart : Apart known
  children : ∀ n, known n → ∀ c ∈ n.children, known c

theorem within_iff {n m : Node κ} : Within n m ↔ n = m ∨ ∃ c ∈ m.children, Within n c := by
  constructor
  · intro h
    cases h with
    | self => exact .inl rfl
    | child hc hn => exact .inr ⟨_, hc, hn⟩
  · rintro (rfl | ⟨c, hc, hn⟩)
    · exact .self
    · exact .child hc hn

@[simp] theorem within_leaf {n : Node κ} {i : κ} {l : Leaf} :
    Within n (leaf i l) ↔ n = leaf i l := by
  rw [within_iff]
  simp [children]

theorem Within.trans {a b c : Node κ} (h : Within a b) (k : Within b c) : Within a c := by
  induction k with
  | self => exact h
  | child hc _ ih => exact .child hc ih

@[simp] theorem among_nil {n : Node κ} : ¬ Among [] n :=
  fun ⟨_, hm, _⟩ => nomatch hm

@[simp] theorem among_cons {n m : Node κ} {ns : List (Node κ)} :
    Among (m :: ns) n ↔ Within n m ∨ Among ns n := by
  simp [Among]

theorem among_self {n : Node κ} {ns : List (Node κ)} (h : n ∈ ns) : Among ns n :=
  ⟨n, h, .self⟩

theorem Among.subset {n : Node κ} {ms ns : List (Node κ)} (h : Among ms n)
    (hsub : ∀ m ∈ ms, m ∈ ns) : Among ns n := by
  obtain ⟨m, hm, hn⟩ := h
  exact ⟨m, hsub m hm, hn⟩

theorem Apart.of_imp {known known' : Node κ → Prop} (h : Apart known)
    (himp : ∀ n, known' n → known n) : Apart known' :=
  fun m n hm hn => h m n (himp m hm) (himp n hn)

theorem Apart.together {ns : List (Node κ)} (h : Apart (Among ns)) : Together (Among ns) where
  apart := h
  children n hn c hc := by
    obtain ⟨m, hm, hnm⟩ := hn
    exact ⟨m, hm, (Within.child hc .self).trans hnm⟩

/-- The node is a pattern that is its own identity. -/
def IsPlain (n : Node Pattern) : Prop :=
  ∃ p, n = ofPattern p

theorem isPlain_of_mem {n : Node Pattern} : ∀ {ps : List Pattern}, n ∈ ofPatterns ps → IsPlain n
  | [], h => nomatch h
  | p :: ps, h => by
    rcases List.mem_cons.mp h with rfl | h
    · exact ⟨p, rfl⟩
    · exact isPlain_of_mem h

/-- **Patterns that are their own identities exist together**, whichever they are. -/
theorem together_isPlain : Together IsPlain where
  apart m n hm hn h := by
    obtain ⟨p, rfl⟩ := hm
    obtain ⟨q, rfl⟩ := hn
    rw [identity_ofPattern, identity_ofPattern] at h
    rw [h]
  children n hn c hc := by
    obtain ⟨p, rfl⟩ := hn
    cases p with
    | leaf l => exact nomatch hc
    | required ps => exact isPlain_of_mem hc
    | optional ps => exact isPlain_of_mem hc
    | shortcut ps => exact isPlain_of_mem hc
    | either ps => exact isPlain_of_mem hc
    | oneOrMore p => exact ⟨p, List.mem_singleton.mp hc⟩

end Synopsis.Node
