import Mathlib.Data.List.Sort
import Synopsis.Arguments
import Synopsis.Proofs.Reduction

/-!
# A match and its bindings

Every token of a matched command line is in the transcript exactly once, and the bindings account
for all of them: each name of the pattern is bound, once and in the order in which the names first
stand in the pattern, to what its own matches make up. A name that is stored holds at most one
match, since a name that could match more than once is collected or counted.
-/

namespace Synopsis

theorem nodup_eraseDups (l : List String) : l.eraseDups.Nodup := by
  induction hn : l.length using Nat.strongRecOn generalizing l with
  | _ n ih =>
    cases l with
    | nil => exact List.nodup_nil
    | cons a as =>
      have hlen : (as.filter fun b => !b == a).length < n := by
        have hle := List.length_filter_le (fun b => !b == a) as
        rw [List.length_cons] at hn
        omega
      rw [List.eraseDups_cons, List.nodup_cons]
      refine ⟨fun ha => ?_, ih _ hlen _ rfl⟩
      rw [List.mem_eraseDups, List.mem_filter] at ha
      simp at ha

namespace Pattern

/-- Leaves are taken in while their names are new. -/
theorem map_name_foldl (ls seen : List Leaf) :
    (ls.foldl (fun seen l => if seen.any (·.name == l.name) then seen else seen ++ [l]) seen).map
        Leaf.name =
      seen.map Leaf.name ++ ((ls.map Leaf.name).removeAll (seen.map Leaf.name)).eraseDups := by
  induction ls generalizing seen with
  | nil => simp
  | cons l ls ih =>
    rw [List.foldl_cons, ih, List.map_cons]
    by_cases hl : l.name ∈ seen.map Leaf.name
    · have hany : seen.any (·.name == l.name) = true := by
        obtain ⟨k, hk, hkl⟩ := List.mem_map.mp hl
        exact List.any_eq_true.mpr ⟨k, hk, beq_iff_eq.mpr hkl⟩
      rw [if_pos hany]
      simp only [List.removeAll, List.filter_cons, List.elem_eq_mem, hl, decide_true,
        Bool.not_true, Bool.false_eq_true, if_false]
    · have hany : ¬ seen.any (·.name == l.name) = true := by
        intro h
        obtain ⟨k, hk, hkl⟩ := List.any_eq_true.mp h
        exact hl (beq_iff_eq.mp hkl ▸ List.mem_map_of_mem hk)
      rw [if_neg hany]
      simp only [List.removeAll, List.filter_cons, List.elem_eq_mem, hl, decide_false,
        Bool.not_false, if_true, List.eraseDups_cons, List.filter_filter, List.map_append,
        List.map_cons, List.map_nil, List.append_assoc, List.singleton_append]
      congr 3
      refine List.filter_congr fun n _ => ?_
      by_cases hn : n = l.name
      · simp [hn]
      · simp [hn]

/-- There is an action for each name, the names in the order in which they first come up. -/
theorem map_fst_actions (p : Pattern) :
    p.actions.map Prod.fst = (p.leaves.map Leaf.name).eraseDups := by
  have h := map_name_foldl p.leaves []
  simp only [List.map_nil, List.nil_append, List.removeAll, List.elem_nil, Bool.not_false,
    List.filter_true] at h
  rw [← h, actions, List.map_map]
  rfl

theorem nodup_actions (p : Pattern) : (p.actions.map Prod.fst).Nodup := by
  rw [map_fst_actions]
  exact nodup_eraseDups _

/-- The first leaf with a name is the one that is taken in. -/
theorem find?_foldl (name : String) (ls seen : List Leaf) :
    (ls.foldl (fun seen l => if seen.any (·.name == l.name) then seen else seen ++ [l]) seen).find?
        (·.name = name) =
      (seen ++ ls).find? (·.name = name) := by
  induction ls generalizing seen with
  | nil => rw [List.foldl_nil, List.append_nil]
  | cons l ls ih =>
    rw [List.foldl_cons, ih]
    by_cases hany : seen.any (·.name == l.name) = true
    · rw [if_pos hany, List.find?_append, List.find?_append, List.find?_cons]
      by_cases hl : l.name = name
      · obtain ⟨k, hk, hkl⟩ := List.any_eq_true.mp hany
        have hsome : (seen.find? (·.name = name)).isSome = true :=
          List.find?_isSome.mpr ⟨k, hk, decide_eq_true ((beq_iff_eq.mp hkl).trans hl)⟩
        rw [Option.or_of_isSome hsome, Option.or_of_isSome hsome]
      · rw [decide_eq_false hl]
    · rw [if_neg hany, List.append_assoc, List.singleton_append]

/-- **The action of a name** is that of the first leaf that bears it. -/
theorem get?_actions (p : Pattern) (name : String) :
    Keyed.get? Prod.fst name p.actions = (p.leaves.find? (·.name = name)).map fun l =>
      (l.name, Action.ofLeaf l (p.multiplicity l.name > 1)) := by
  have h := find?_foldl name p.leaves []
  rw [List.nil_append] at h
  rw [← h, Keyed.get?, actions, List.find?_map]
  rfl

theorem mem_actions {p : Pattern} {name : String} {a : Action} (h : (name, a) ∈ p.actions) :
    ∃ l, a = Action.ofLeaf l (p.multiplicity name > 1) := by
  obtain ⟨l, -, hl⟩ := List.mem_map.mp h
  obtain ⟨rfl, rfl⟩ := Prod.mk.inj hl
  exact ⟨l, rfl⟩

end Pattern

/-- **What a name is bound to**, by its action and the values of its matches in the order of their
tokens: what is stored has at most one match. -/
inductive Action.Binds : Action → List Value → Value → Prop
  | unset {initial} : Binds (.store initial) [] initial
  | stored {initial v} : Binds (.store initial) [v] v
  | standing {defaults} : Binds (.append defaults) [] (.list defaults)
  | collected {defaults vs} : vs ≠ [] → Binds (.append defaults) vs (.list vs)
  | counted {initial vs} : Binds (.count initial) vs (.count vs.length)

namespace Action

theorem binds_append (defaults vs : List Value) :
    Binds (.append defaults) vs ((append defaults).total vs) := by
  cases vs with
  | nil => exact .standing
  | cons v vs => exact .collected (List.cons_ne_nil v vs)

theorem binds_count (vs : List Value) : Binds (.count 0) vs ((count 0).total vs) := by
  cases vs with
  | nil => exact .counted
  | cons v vs => exact .counted

theorem binds_store (w : Value) {vs : List Value} (h : vs.length ≤ 1) :
    Binds (.store w) vs ((store w).total vs) := by
  match vs, h with
  | [], _ => exact .unset
  | [v], _ => exact .stored

theorem ofLeaf_single (l : Leaf) : ∃ w, ofLeaf l false = store w := by
  cases l with
  | command name => exact ⟨_, rfl⟩
  | argument name => exact ⟨_, rfl⟩
  | option o =>
    cases ht : o.takesValue <;> cases hd : o.default <;> simp [ofLeaf, ht, hd, storeFlag,
      storeValue, storeDefault]

/-- A leaf whose name can match more than once is collected or counted. -/
theorem ofLeaf_repeating (l : Leaf) :
    (∃ ds, ofLeaf l true = append ds) ∨ ofLeaf l true = count 0 := by
  cases l with
  | command name => exact .inr rfl
  | argument name => exact .inl ⟨_, rfl⟩
  | option o =>
    cases ht : o.takesValue <;> cases hd : o.default <;> simp [ofLeaf, ht, hd, countMatches,
      appendValues, appendDefault]

theorem binds_ofLeaf (l : Leaf) {repeating : Bool} {vs : List Value}
    (h : repeating = false → vs.length ≤ 1) :
    Binds (ofLeaf l repeating) vs ((ofLeaf l repeating).total vs) := by
  cases repeating with
  | false =>
    obtain ⟨w, hw⟩ := ofLeaf_single l
    rw [hw]
    exact binds_store w (h rfl)
  | true =>
    rcases ofLeaf_repeating l with ⟨ds, hd⟩ | hc
    · rw [hd]
      exact binds_append ds vs
    · rw [hc]
      exact binds_count vs

end Action

namespace Matching

variable {tokens : List Token} {p : Pattern} {ms : List LeafMatch}

/-- A match is a derivation that consumes every token. -/
theorem derives_of_run (h : (run tokens p).matched = some ms) :
    Derives tokens p (everything tokens) [] ms := by
  rw [run_matched] at h
  obtain ⟨o, ho, rfl⟩ := Option.map_eq_some_iff.mp h
  have hl := List.find?_some ho
  have hd := derives_of_mem p (everything tokens) o (List.mem_of_find?_eq_some ho)
  rwa [List.isEmpty_iff.mp hl] at hd

theorem indices_of_run (h : (run tokens p).matched = some ms) :
    (ms.map LeafMatch.index).Perm (List.range tokens.length) := by
  have ha := (derives_of_run h).account List.nodup_range
  rwa [List.append_nil] at ha

theorem names_of_run (h : (run tokens p).matched = some ms) :
    ∀ m ∈ ms, m.name ∈ p.actions.map Prod.fst := by
  intro m hm
  rw [Pattern.map_fst_actions, List.mem_eraseDups]
  exact List.mem_map_of_mem ((derives_of_run h).match_mem m hm).1

/-- **Nothing is lost, duplicated or invented between a match and its bindings.** -/
theorem bindings_of_match (h : (run tokens p).matched = some ms) :
    (ms.map LeafMatch.index).Perm (List.range tokens.length) ∧
    ∃ b, Bindings.reduce ms p.actions = .ok b ∧
      b.names = (p.leaves.map Leaf.name).eraseDups ∧ b.names = p.actions.map Prod.fst ∧
      ∀ name a, (name, a) ∈ p.actions →
        ∃ own : List LeafMatch, ∃ v, own.Perm (matchesOf name ms) ∧
          own.Pairwise (fun m q => m.index < q.index) ∧
          b.get? name = some v ∧ a.Binds (own.map LeafMatch.value) v := by
  have hindices := indices_of_run h
  have hstrict := Bindings.inOrder_strict (hindices.nodup_iff.mpr List.nodup_range)
  have hnames : (p.actions.map fun x => (x.1, x.2.total
      (valuesOf x.1 (Bindings.inOrder ms)))).map Prod.fst = p.actions.map Prod.fst := by
    rw [List.map_map]
    rfl
  refine ⟨hindices, _, Bindings.reduce_eq p.nodup_actions (names_of_run h), ?_, hnames, ?_⟩
  · exact hnames.trans p.map_fst_actions
  · intro name a ha
    have hperm : (matchesOf name (Bindings.inOrder ms)).Perm (matchesOf name ms) :=
      (Bindings.inOrder_perm ms).filter _
    refine ⟨matchesOf name (Bindings.inOrder ms), a.total (valuesOf name (Bindings.inOrder ms)),
      hperm, hstrict.filter _, ?_, ?_⟩
    · rw [Bindings.get?, Keyed.get?_map_entries, Keyed.get?_eq_some p.nodup_actions ha]
      rfl
    · obtain ⟨l, rfl⟩ := Pattern.mem_actions ha
      refine Action.binds_ofLeaf l fun hrep => ?_
      have hle : p.multiplicity name ≤ 1 := Nat.not_lt.mp (of_decide_eq_false hrep)
      rw [List.length_map, hperm.length_eq]
      exact Nat.le_trans ((derives_of_run h).length_matchesOf_le name hle) hle

/-- A command with an option in the middle of its two arguments. -/
theorem bindings_of_repeated_argument :
    ∃ ms b, (run [.plain "go", .plain "a", .option { short := some "-v" } "-v" none, .plain "b"]
        (.required [.leaf (.option { short := some "-v" }), .leaf (.command "go"),
          .leaf (.argument "<x>"), .leaf (.argument "<x>")])).matched = some ms ∧
      (ms.map LeafMatch.index).Perm [0, 1, 2, 3] ∧
      Bindings.reduce ms (Pattern.actions (.required [.leaf (.option { short := some "-v" }),
        .leaf (.command "go"), .leaf (.argument "<x>"), .leaf (.argument "<x>")])) = .ok b ∧
      b.names = ["-v", "go", "<x>"] := by
  have hrun : (run [.plain "go", .plain "a", .option { short := some "-v" } "-v" none, .plain "b"]
      (.required [.leaf (.option { short := some "-v" }), .leaf (.command "go"),
        .leaf (.argument "<x>"), .leaf (.argument "<x>")])).matched =
      some [⟨.option { short := some "-v" }, 2, .flag true⟩, ⟨.command "go", 0, .flag true⟩,
        ⟨.argument "<x>", 1, .text "a"⟩, ⟨.argument "<x>", 3, .text "b"⟩] := by
    rw [run_matched]
    rfl
  obtain ⟨hperm, b, hb, hnames, -⟩ := bindings_of_match hrun
  exact ⟨_, b, hrun, hperm, hb, hnames.trans rfl⟩

end Matching

namespace Bindings

/-- There is one strict order for matches. -/
theorem eq_of_strict {ms ms' : List LeafMatch} (h : ms.Perm ms')
    (hs : ms.Pairwise fun m q => m.index < q.index)
    (hs' : ms'.Pairwise fun m q => m.index < q.index) : ms = ms' := by
  refine h.eq_of_pairwise (fun m q _ _ hmq hqm => ?_) hs hs'
  omega

/-- Matches of a name that are in order already stay as they are. -/
theorem matchesOf_inOrder {ms : List LeafMatch} {name : String}
    (hn : (ms.map LeafMatch.index).Nodup)
    (hs : (matchesOf name ms).Pairwise fun m q => m.index < q.index) :
    matchesOf name (inOrder ms) = matchesOf name ms := by
  have hperm : (matchesOf name (inOrder ms)).Perm (matchesOf name ms) :=
    (inOrder_perm ms).filter _
  have hstrict : (matchesOf name (inOrder ms)).Pairwise fun m q => m.index < q.index :=
    (inOrder_strict hn).filter _
  exact eq_of_strict hperm hstrict hs

/-- Matches of distinct tokens have one order. -/
theorem inOrder_eq_of_perm {ms ms' : List LeafMatch} (h : ms.Perm ms')
    (hn : (ms.map LeafMatch.index).Nodup) : inOrder ms = inOrder ms' := by
  have hn' : (ms'.map LeafMatch.index).Nodup := (h.map LeafMatch.index).nodup_iff.mp hn
  have hperm : (inOrder ms).Perm (inOrder ms') :=
    (inOrder_perm ms).trans (h.trans (inOrder_perm ms').symm)
  exact eq_of_strict hperm (inOrder_strict hn) (inOrder_strict hn')

/-- A key stands for itself. -/
theorem query_eq {b : Bindings} {name : String} {v : Value} (h : b.get? name = some v)
    (default : Value) : b.query name default = v := by
  have hmem : name ∈ b.names := by
    obtain ⟨entry, hentry, -⟩ := Option.map_eq_some_iff.mp h
    exact Keyed.mem_map_iff.mpr ⟨entry, hentry⟩
  rw [query, find, resolve, if_pos hmem]
  simp only [bind, Except.bind, h, pure, Except.pure]

end Bindings

namespace Matching

variable {tokens : List Token} {p : Pattern} {ms : List LeafMatch}

/-- **What a name is bound to**, if its matches are in order already. -/
theorem query_of_run {b : Bindings} (h : (run tokens p).matched = some ms)
    (hb : Bindings.reduce ms p.actions = .ok b) {name : String} {a : Action}
    (ha : (name, a) ∈ p.actions)
    (hs : (matchesOf name ms).Pairwise fun m q => m.index < q.index) (default : Value) :
    b.query name default = a.total (valuesOf name ms) := by
  have hindices := (indices_of_run h).nodup_iff.mpr List.nodup_range
  rw [Bindings.reduce_eq p.nodup_actions (names_of_run h)] at hb
  refine Bindings.query_eq ?_ default
  have hvalues : valuesOf name (Bindings.inOrder ms) = valuesOf name ms := by
    rw [valuesOf, valuesOf, Bindings.matchesOf_inOrder hindices hs]
  rw [← Except.ok.inj hb, ← hvalues, Bindings.get?, Keyed.get?_map_entries,
    Keyed.get?_eq_some p.nodup_actions ha]
  rfl

end Matching

end Synopsis
