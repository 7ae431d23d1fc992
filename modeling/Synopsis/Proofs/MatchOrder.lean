import Synopsis.Proofs.Binding

/-!
# The order of matches does not matter

The matches of a command line stand for the same bindings in whatever order they are listed, as
long as no token is matched twice. `Action.Settles` says what the matches of a name come to without
an order: the one with the highest place is stored, all are listed by their places, or they are
counted. What it says determines the value.
-/

namespace Synopsis

/-- **What the matches of a name settle**, in whatever order they are listed. -/
inductive Action.Settles (ms : List LeafMatch) : Action → Value → Prop
  | unset {a : Action} : ms = [] → Settles ms a a.initial
  | stored {initial : Value} {m : LeafMatch} : m ∈ ms → (∀ q ∈ ms, q.index ≤ m.index) →
      Settles ms (.store initial) m.value
  | collected {defaults : List Value} {own : List LeafMatch} : ms ≠ [] → own.Perm ms →
      own.Pairwise (fun m q => m.index < q.index) →
      Settles ms (.append defaults) (.list (own.map LeafMatch.value))
  | counted {initial : Int} : ms ≠ [] → Settles ms (.count initial) (.count ms.length)

namespace Action

variable {a : Action} {v w : Value} {ms own : List LeafMatch}

/-- **The matches settle one value.** -/
theorem Settles.unique (hn : (ms.map LeafMatch.index).Nodup) (h : a.Settles ms v)
    (k : a.Settles ms w) : v = w := by
  cases h with
  | unset hnil =>
    subst hnil
    cases k with
    | unset => rfl
    | stored hm _ => exact absurd hm List.not_mem_nil
    | collected hne => exact absurd rfl hne
    | counted hne => exact absurd rfl hne
  | @stored initial m hm hmax =>
    cases k with
    | unset hnil => exact absurd (hnil ▸ hm) List.not_mem_nil
    | @stored _ q hq hmax' =>
      have hindex : m.index = q.index := Nat.le_antisymm (hmax' m hm) (hmax q hq)
      rw [List.inj_on_of_nodup_map hn hm hq hindex]
  | collected hne hperm hpair =>
    cases k with
    | unset hnil => exact absurd hnil hne
    | collected _ hperm' hpair' =>
      rw [Bindings.eq_of_strict (hperm.trans hperm'.symm) hpair hpair']
  | counted hne =>
    cases k with
    | unset hnil => exact absurd hnil hne
    | counted => rfl

theorem total_store_concat (initial : Value) (front : List Value) (v : Value) :
    (store initial).total (front ++ [v]) = v := by
  cases front with
  | nil => rfl
  | cons u front => exact List.getLastD_concat

theorem total_append (defaults : List Value) {vs : List Value} (h : vs ≠ []) :
    (append defaults).total vs = .list vs := by
  cases vs with
  | nil => exact absurd rfl h
  | cons v vs => rfl

theorem total_count (initial : Int) {vs : List Value} (h : vs ≠ []) :
    (count initial).total vs = .count vs.length := by
  cases vs with
  | nil => exact absurd rfl h
  | cons v vs => rfl

/-- The last of matches in order has the highest place. -/
theorem index_le_last {m last : LeafMatch} (hperm : (own ++ [last]).Perm ms)
    (hpair : (own ++ [last]).Pairwise fun m q => m.index < q.index) (hm : m ∈ ms) :
    m.index ≤ last.index := by
  rcases List.mem_append.mp (hperm.mem_iff.mpr hm) with hfront | hlast
  · have hbefore := (List.pairwise_append.mp hpair).2.2
    exact Nat.le_of_lt (hbefore m hfront last (List.mem_singleton.mpr rfl))
  · rw [List.mem_singleton.mp hlast]

/-- **The total of matches in order is what they settle.** -/
theorem settles_total (a : Action) (hperm : own.Perm ms)
    (hpair : own.Pairwise fun m q => m.index < q.index) :
    a.Settles ms (a.total (own.map LeafMatch.value)) := by
  rcases List.eq_nil_or_concat' own with rfl | ⟨front, last, rfl⟩
  · exact .unset (List.nil_perm.mp hperm)
  · have hlast : last ∈ ms := hperm.mem_iff.mp (List.mem_append_right front List.mem_cons_self)
    have hne : ms ≠ [] := List.ne_nil_of_mem hlast
    have hvalues : (front ++ [last]).map LeafMatch.value ≠ [] := by simp
    cases a with
    | store initial =>
      rw [List.map_append, List.map_singleton, total_store_concat]
      exact .stored hlast fun q hq => index_le_last hperm hpair hq
    | append defaults =>
      rw [total_append defaults hvalues]
      exact .collected hne hperm hpair
    | count initial =>
      rw [total_count initial hvalues, List.length_map, hperm.length_eq]
      exact .counted hne

end Action

namespace Bindings

variable {actions : List (String × Action)} {ms ms' : List LeafMatch}

/-- **Matches amount to the same bindings in any order.** The names are those of the actions, and
each is bound to what its own matches settle. -/
theorem reduce_of_perm (hn : (actions.map Prod.fst).Nodup) (hperm : ms.Perm ms')
    (hindices : (ms.map LeafMatch.index).Nodup)
    (hnames : ∀ m ∈ ms, m.name ∈ actions.map Prod.fst) :
    ∃ b, reduce ms actions = .ok b ∧ reduce ms' actions = .ok b ∧
      b.names = actions.map Prod.fst ∧
      ∀ name a, (name, a) ∈ actions → ∀ v,
        b.get? name = some v ↔ a.Settles (matchesOf name ms) v := by
  have hreduce := reduce_eq hn hnames
  have hsame : reduce ms' actions = reduce ms actions := by
    rw [reduce, reduce, inOrder_eq_of_perm hperm hindices]
  refine ⟨_, hreduce, hsame.trans hreduce, ?_, fun name a ha v => ?_⟩
  · rw [names, List.map_map]
    rfl
  · have hsettles : a.Settles (matchesOf name ms) (a.total (valuesOf name (inOrder ms))) :=
      Action.settles_total a ((inOrder_perm ms).filter _) ((inOrder_strict hindices).filter _)
    have hdistinct : ((matchesOf name ms).map LeafMatch.index).Nodup :=
      hindices.sublist (List.filter_sublist.map _)
    rw [get?, Keyed.get?_map_entries, Keyed.get?_eq_some hn ha, Option.map_some, Option.map_some,
      Option.some.injEq]
    constructor
    · rintro rfl
      exact hsettles
    · exact hsettles.unique hdistinct

/-- An argument that stands before and behind an option, listed backwards and forwards. -/
theorem reduce_of_perm_backwards :
    ∃ b, reduce [⟨.argument "<x>", 2, .text "b"⟩, ⟨.option { short := some "-v" }, 1, .flag true⟩,
        ⟨.argument "<x>", 0, .text "a"⟩] [("-v", .count 0), ("<x>", .append [.text "d"])] = .ok b ∧
      reduce [⟨.argument "<x>", 0, .text "a"⟩, ⟨.option { short := some "-v" }, 1, .flag true⟩,
        ⟨.argument "<x>", 2, .text "b"⟩] [("-v", .count 0), ("<x>", .append [.text "d"])] = .ok b ∧
      b.names = ["-v", "<x>"] ∧ b.get? "<x>" = some (.list [.text "a", .text "b"]) := by
  have hperm : List.Perm
      [⟨.argument "<x>", 2, .text "b"⟩, ⟨.option { short := some "-v" }, 1, .flag true⟩,
        ⟨.argument "<x>", 0, .text "a"⟩]
      [⟨.argument "<x>", 0, .text "a"⟩, ⟨.option { short := some "-v" }, 1, .flag true⟩,
        (⟨.argument "<x>", 2, .text "b"⟩ : LeafMatch)] :=
    List.reverse_perm [_, _, _]
  have hn : (List.map Prod.fst [("-v", .count 0), ("<x>", Action.append [.text "d"])]).Nodup := by
    decide
  obtain ⟨b, hb, hb', hnames, hvalues⟩ := reduce_of_perm hn hperm (by decide) (by decide)
  have hmem : ("<x>", Action.append [.text "d"]) ∈
      [("-v", .count 0), ("<x>", Action.append [.text "d"])] :=
    List.mem_cons_of_mem _ List.mem_cons_self
  have hown : List.Perm [⟨.argument "<x>", 0, .text "a"⟩, ⟨.argument "<x>", 2, .text "b"⟩]
      [⟨.argument "<x>", 2, .text "b"⟩, (⟨.argument "<x>", 0, .text "a"⟩ : LeafMatch)] :=
    List.reverse_perm [_, _]
  refine ⟨b, hb, hb', hnames, (hvalues "<x>" _ hmem _).mpr ?_⟩
  exact .collected (List.cons_ne_nil _ _) hown (by decide)

end Bindings

end Synopsis
