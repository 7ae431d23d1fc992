import Synopsis.Proofs.Correspondence
import Synopsis.Proofs.Rearrangement

/-!
# Matching a rearranged command line

The outcomes of a leaf correspond before and after a rearrangement, so those of any pattern do.
Hence a rearranged command line matches if the first one does, the two matches correspond entry by
entry, and the names are bound to the same values, unless an option has the name of a command or an
argument: the matches of one name are then of tokens of one kind, whose order is kept.
-/

namespace Synopsis

namespace Rearrangement

open Matching

variable {xs ys : List Token} (r : Rearrangement xs ys)

/-- An outcome and what it becomes. -/
structure Moved (o o' : Outcome) : Prop where
  left : r.Carries o.left o'.left
  matched : o'.matched = o.matched.map r.move

/-- The outcomes of one enumeration become those of the other, one by one. -/
def Transports (e e' : Enumeration) : Prop :=
  ∀ left left', r.Carries left left' → List.Forall₂ r.Moved (e.list left) (e'.list left')

/-- The same tokens are left, and each match is where its token went. -/
def correspondence : Correspondence where
  left := r.Carries
  matched ms ms' := ms' = ms.map r.move
  nothing := nothing_moved
  append := append_of_moved
  stays h k _ _ := h.eq_iff k

/-- A leaf has an outcome after the rearrangement exactly if it had one, and it is what that one
becomes. -/
theorem aligns_leaf (l : Leaf) : r.correspondence.Aligns (.ofLeaf xs l) (.ofLeaf ys l) := by
  refine .ofLeaf r.target (fun {left left'} h i' t => ?_) r.target_injective
    (fun {_ _} h {i _} _ => h.remove i) fun _ _ => rfl
  constructor
  · intro hfirst
    obtain ⟨i, -, rfl⟩ := List.mem_map.mp (h.perm.mem_iff.mp hfirst.mem)
    exact ⟨i, rfl, (h.firstLeft_iff l).mp hfirst⟩
  · rintro ⟨i, rfl, hfirst⟩
    exact (h.firstLeft_iff l).mpr hfirst

/-- **The ways to match a pattern are taken to the ways to match it after the rearrangement**, in
the same order. -/
theorem transports (p : Pattern) : r.Transports (enumerate xs p) (enumerate ys p) := by
  intro left left' h
  have haligns := Correspondence.aligns p (fun l _ => r.aligns_leaf l) left left' h
  exact haligns.imp fun _ _ ho => ⟨ho.left, ho.matched⟩

theorem carries_everything : r.Carries (everything xs) (everything ys) := by
  refine ⟨List.pairwise_lt_range, List.pairwise_lt_range, ?_⟩
  have hlen := r.length_eq
  have hn : ((everything xs).map r.target).Nodup := List.nodup_range.map r.target_injective
  refine (List.perm_ext_iff_of_nodup List.nodup_range hn).mpr fun j => ?_
  rw [List.mem_range, List.mem_map]
  constructor
  · intro hj
    refine ⟨r.place.symm ⟨j, hj⟩, List.mem_range.mpr (r.place.symm ⟨j, hj⟩).isLt, ?_⟩
    rw [target, dif_pos (r.place.symm ⟨j, hj⟩).isLt]
    exact congrArg Fin.val (r.place.apply_symm_apply ⟨j, hj⟩)
  · rintro ⟨i, hi, rfl⟩
    have hi' : i < xs.length := List.mem_range.mp hi
    rw [target, dif_pos hi']
    exact (r.place ⟨i, hi'⟩).isLt

theorem find?_moved {l l' : List Outcome} (h : List.Forall₂ r.Moved l l') :
    (l'.find? (·.left.isEmpty)).map Outcome.matched =
      ((l.find? (·.left.isEmpty)).map Outcome.matched).map (List.map r.move) := by
  have hrel := r.correspondence.rel_find? (fun hleft => hleft.isEmpty_eq)
    (h.imp fun _ _ ho => ⟨ho.left, ho.matched⟩)
  generalize (l.find? (·.left.isEmpty)).map Outcome.matched = matched,
    (l'.find? (·.left.isEmpty)).map Outcome.matched = matched' at hrel ⊢
  cases hrel with
  | none => rfl
  | some hmatched => exact congrArg some hmatched

/-- The match after the rearrangement. -/
theorem matched_eq (p : Pattern) :
    (run ys p).matched = (run xs p).matched.map (List.map r.move) := by
  rw [run_matched, run_matched]
  exact r.find?_moved (r.transports p (everything xs) (everything ys) r.carries_everything)

end Rearrangement

/-- No option has the name of a command or an argument. -/
def Pattern.OptionsApart (p : Pattern) : Prop :=
  ∀ l ∈ p.leaves, ∀ k ∈ p.leaves, l.name = k.name → l.option?.isSome = k.option?.isSome

namespace Rearrangement

open Matching

variable {xs ys : List Token} (r : Rearrangement xs ys) {p : Pattern} {ms : List LeafMatch}

theorem matchesOf_map_move (name : String) (ms : List LeafMatch) :
    matchesOf name (ms.map r.move) = (matchesOf name ms).map r.move :=
  List.filter_map

/-- Two matches of one name stay in order. -/
theorem target_lt_of_matches (hp : p.OptionsApart) (h : (run xs p).matched = some ms)
    {m q : LeafMatch} (hm : m ∈ ms) (hq : q ∈ ms) (hn : m.name = q.name)
    (hlt : m.index < q.index) : r.target m.index < r.target q.index := by
  obtain ⟨hml, _, hmc⟩ := (derives_of_run h).match_mem m hm
  obtain ⟨hql, _, hqc⟩ := (derives_of_run h).match_mem q hq
  obtain ⟨t, ht, hmk⟩ := hmc.token
  obtain ⟨u, hu, hqk⟩ := hqc.token
  rw [← Leaf.kind_eq hn (hp m.leaf hml q.leaf hql hn)] at hqk
  exact r.target_lt m.leaf hlt ht hu hmk hqk

/-- The matches of a name, in the order of their tokens, are taken to its matches in order. -/
theorem matchesOf_inOrder (hp : p.OptionsApart) (h : (run xs p).matched = some ms)
    (name : String) :
    matchesOf name (Bindings.inOrder (ms.map r.move)) =
      (matchesOf name (Bindings.inOrder ms)).map r.move := by
  have hn : (ms.map LeafMatch.index).Nodup := (indices_of_run h).nodup_iff.mpr List.nodup_range
  have hn' : ((ms.map r.move).map LeafMatch.index).Nodup := by
    have hmap : (ms.map r.move).map LeafMatch.index = (ms.map LeafMatch.index).map r.target := by
      rw [List.map_map, List.map_map]
      rfl
    rw [hmap]
    exact hn.map r.target_injective
  have hperm : (matchesOf name (Bindings.inOrder (ms.map r.move))).Perm
      ((matchesOf name (Bindings.inOrder ms)).map r.move) := by
    rw [← r.matchesOf_map_move]
    exact ((Bindings.inOrder_perm _).trans ((Bindings.inOrder_perm ms).symm.map r.move)).filter _
  refine hperm.eq_of_pairwise (fun a b _ _ hab hba => absurd hab (Nat.lt_asymm hba))
    ((Bindings.inOrder_strict hn').filter _) (List.pairwise_map.mpr ?_)
  refine ((Bindings.inOrder_strict hn).filter _).imp_of_mem fun {m q} hm hq hlt => ?_
  have hmm := List.mem_filter.mp hm
  have hqq := List.mem_filter.mp hq
  exact r.target_lt_of_matches hp h (List.mem_mergeSort.mp hmm.1) (List.mem_mergeSort.mp hqq.1)
    ((beq_iff_eq.mp hmm.2).trans (beq_iff_eq.mp hqq.2).symm) hlt

theorem reduce_eq (hp : p.OptionsApart) (h : (run xs p).matched = some ms) :
    Bindings.reduce (ms.map r.move) p.actions = Bindings.reduce ms p.actions := by
  have hnames := names_of_run h
  have hnames' : ∀ m ∈ ms.map r.move, m.name ∈ p.actions.map Prod.fst := by
    intro m hm
    obtain ⟨q, hq, rfl⟩ := List.mem_map.mp hm
    exact hnames q hq
  rw [Bindings.reduce_eq p.nodup_actions hnames, Bindings.reduce_eq p.nodup_actions hnames']
  congr 1
  refine List.map_congr_left fun x _ => ?_
  rw [valuesOf, r.matchesOf_inOrder hp h, List.map_map]
  rfl

/-- **Options may stand anywhere.** A rearranged command line matches exactly if the first one does,
the matches correspond entry by entry and, where options have names of their own, the bindings are
equal. -/
theorem match_of_rearranged (p : Pattern) :
    (run ys p).matched = (run xs p).matched.map (List.map r.move) ∧
    (p.OptionsApart → ∀ ms ms', (run xs p).matched = some ms → (run ys p).matched = some ms' →
      ∃ b, Bindings.reduce ms p.actions = .ok b ∧ Bindings.reduce ms' p.actions = .ok b) := by
  refine ⟨r.matched_eq p, fun hp ms ms' h h' => ?_⟩
  rw [r.matched_eq p, h] at h'
  obtain rfl := Option.some.inj h'
  rw [r.reduce_eq hp h]
  exact ⟨_, Bindings.reduce_eq p.nodup_actions (names_of_run h),
    Bindings.reduce_eq p.nodup_actions (names_of_run h)⟩

/-- A flag moved behind the command that it stood before. -/
def flagBehindCommand :
    Rearrangement [.option { short := some "-v" } "-v" none, .plain "go", .plain "1"]
      [.plain "go", .option { short := some "-v" } "-v" none, .plain "1"] where
  place := Equiv.swap 0 1
  same := by decide
  positional := by decide
  options := by
    intro name i j hij hi hj
    match i, j with
    | 0, 1 => exact absurd hj Bool.false_ne_true
    | 0, 2 => exact absurd hj Bool.false_ne_true
    | 1, _ => exact absurd hi Bool.false_ne_true
    | 2, _ => exact absurd hi Bool.false_ne_true

/-- It matches as before. -/
theorem match_of_flag_behind_command :
    ∃ ms b, (Pattern.required [.leaf (.command "go"), .leaf (.argument "<x>"),
          .optional [.leaf (.option { short := some "-v" })]]).OptionsApart ∧
      (run [.plain "go", .option { short := some "-v" } "-v" none, .plain "1"]
        (.required [.leaf (.command "go"), .leaf (.argument "<x>"),
          .optional [.leaf (.option { short := some "-v" })]])).matched =
        some (ms.map flagBehindCommand.move) ∧
      Bindings.reduce ms (Pattern.actions (.required
        [.leaf (.command "go"), .leaf (.argument "<x>"),
          .optional [.leaf (.option { short := some "-v" })]])) = .ok b ∧
      Bindings.reduce (ms.map flagBehindCommand.move) (Pattern.actions (.required
        [.leaf (.command "go"), .leaf (.argument "<x>"),
          .optional [.leaf (.option { short := some "-v" })]])) = .ok b := by
  have hapart : (Pattern.required [.leaf (.command "go"), .leaf (.argument "<x>"),
      .optional [.leaf (.option { short := some "-v" })]]).OptionsApart := by
    unfold Pattern.OptionsApart
    decide
  have hrun : (run [.option { short := some "-v" } "-v" none, .plain "go", .plain "1"]
      (.required [.leaf (.command "go"), .leaf (.argument "<x>"),
        .optional [.leaf (.option { short := some "-v" })]])).matched =
      some [⟨.command "go", 1, .flag true⟩, ⟨.argument "<x>", 2, .text "1"⟩,
        ⟨.option { short := some "-v" }, 0, .flag true⟩] := by
    rw [run_matched]
    rfl
  obtain ⟨hmatched, hreduce⟩ := flagBehindCommand.match_of_rearranged (.required
    [.leaf (.command "go"), .leaf (.argument "<x>"),
      .optional [.leaf (.option { short := some "-v" })]])
  rw [hrun] at hmatched
  obtain ⟨b, hb, hb'⟩ := hreduce hapart _ _ hrun hmatched
  exact ⟨_, b, hapart, hmatched, hb, hb'⟩

end Rearrangement

end Synopsis
