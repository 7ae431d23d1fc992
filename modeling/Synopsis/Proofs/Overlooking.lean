import Mathlib.Data.List.GetD
import Mathlib.Data.List.Nodup
import Synopsis.Proofs.Correspondence
import Synopsis.Proofs.Derivation

/-!
# Tokens that a pattern overlooks

A pattern never takes a token that none of its leaves looks for. So tokens may be hidden from it,
whether they are dropped from what is left or from the command line altogether: the ways to match
the pattern stay the same, one by one, and the hidden tokens are left as they were. In particular a
pattern matches the tokens kept of a command line exactly if it matches the command line that they
make up.
-/

namespace Synopsis

open Matching

/-- A token of an option is of the kind of no leaf but those of the option. -/
theorem Token.kind_eq_false {t : Token} {name : String} (h : t.isOptionOf name = true)
    {l : Leaf} (hl : ∀ o, l = .option o → o.name ≠ name) : l.kind t = false := by
  cases t with
  | plain raw => exact nomatch h
  | marker raw => exact nomatch h
  | option o raw value =>
    have hname : o.name = name := beq_iff_eq.mp h
    cases l with
    | command _ => rfl
    | argument _ => rfl
    | option o' => exact beq_eq_false_iff_ne.mpr fun heq => hl o' rfl (heq ▸ hname)

/-- **Tokens that are found again in another command line**, with the place of each. -/
structure Excerpt (xs ys : List Token) where
  place : Nat → Nat
  injective : Function.Injective place
  same : ∀ i, ys[place i]? = xs[i]?

/-- No leaf of the pattern looks for the tokens at the hidden places. -/
def Pattern.Overlooks (p : Pattern) (tokens : List Token) (hidden : Nat → Bool) : Prop :=
  ∀ l ∈ p.leaves, ∀ i, hidden i = true → ∀ t, tokens[i]? = some t → l.kind t = false

namespace Excerpt

variable {xs ys : List Token} (r : Excerpt xs ys) {hidden : Nat → Bool} {base left left' : List Nat}

/-- The whole command line. -/
def whole (tokens : List Token) : Excerpt tokens tokens where
  place := id
  injective := Function.injective_id
  same _ := rfl

/-- A match, at the place where its token is found again. -/
def move (m : LeafMatch) : LeafMatch :=
  { m with index := r.place m.index }

/-- Apart from the hidden tokens, which are these, the same tokens are left. -/
structure Shows (hidden : Nat → Bool) (base left left' : List Nat) : Prop where
  shown : left'.filter (!hidden ·) = left.map r.place
  hidden : left'.filter hidden = base

namespace Shows

variable {r}

theorem not_hidden (h : r.Shows hidden base left left') {i : Nat} (hi : i ∈ left) :
    hidden (r.place i) = false := by
  have hmem : r.place i ∈ left'.filter (!hidden ·) := h.shown ▸ List.mem_map_of_mem hi
  exact Bool.not_eq_true' _ ▸ (List.mem_filter.mp hmem).2

/-- The first token of a kind is found again as the first one, unless tokens of the kind are
hidden. -/
theorem firstLeft_iff {kind : Token → Bool} (h : r.Shows hidden base left left')
    (hkind : ∀ i, hidden i = true → ∀ t, ys[i]? = some t → kind t = false) {i' : Nat} {t : Token} :
    FirstLeft ys kind left' i' t ↔ ∃ i, r.place i = i' ∧ FirstLeft xs kind left i t := by
  have hshown : ∀ {j u}, ys[j]? = some u → kind u = true → (!hidden j) = true := by
    intro j u hu hk
    rw [Bool.not_eq_true', Bool.eq_false_iff]
    intro hj
    exact Bool.false_ne_true ((hkind j hj u hu).symm.trans hk)
  constructor
  · rintro ⟨before, after, rfl, ht, hk, hb⟩
    have hsplit := h.shown
    -- the first token of the kind is shown, so it comes from a place on the other side
    rw [List.filter_append, List.filter_cons, if_pos (hshown ht hk)] at hsplit
    obtain ⟨l₁, l₂, rfl, h₁, h₂⟩ := List.map_eq_append_iff.mp hsplit.symm
    obtain ⟨i, l₃, rfl, rfl, -⟩ := List.map_eq_cons_iff.mp h₂
    refine ⟨i, rfl, l₁, l₃, rfl, (r.same i).symm.trans ht, hk, fun j hj u hu => ?_⟩
    have hmem : r.place j ∈ before.filter (!hidden ·) := h₁ ▸ List.mem_map_of_mem hj
    exact hb _ (List.mem_of_mem_filter hmem) u ((r.same j).trans hu)
  · rintro ⟨i, rfl, before, after, rfl, ht, hk, hb⟩
    have hsplit := h.shown
    rw [List.map_append, List.map_cons] at hsplit
    obtain ⟨l₁, l₂, rfl, h₁, h₂⟩ := List.filter_eq_append_iff.mp hsplit
    -- in front of it there may also be hidden tokens, which are not of the kind
    obtain ⟨l₃, l₄, rfl, h₃, -, -⟩ := List.filter_eq_cons_iff.mp h₂
    refine ⟨l₁ ++ l₃, l₄, by rw [List.append_assoc], (r.same i).trans ht, hk, fun j hj u hu => ?_⟩
    by_contra hku
    have hjs := hshown hu (Bool.not_eq_false _ ▸ hku)
    rcases List.mem_append.mp hj with hj | hj
    · have hmem : j ∈ before.map r.place := h₁ ▸ List.mem_filter.mpr ⟨hj, hjs⟩
      obtain ⟨k, hkb, rfl⟩ := List.mem_map.mp hmem
      exact hku (hb k hkb u ((r.same k).symm.trans hu))
    · exact h₃ j hj hjs

theorem remove (h : r.Shows hidden base left left') {i : Nat} (hi : i ∈ left) :
    r.Shows hidden base (left.filter (· != i)) (left'.filter (· != r.place i)) where
  shown := by
    rw [List.filter_comm, h.shown, List.filter_map]
    congr 1
    refine List.filter_congr fun j _ => ?_
    rw [Function.comp_apply, bne, bne, Bool.not_inj_iff]
    exact Bool.eq_iff_iff.mpr (by simp [r.injective.eq_iff])
  hidden := by
    rw [List.filter_filter, ← h.hidden]
    refine List.filter_congr fun j _ => ?_
    by_cases hj : j = r.place i
    · simp [hj, h.not_hidden hi]
    · simp [hj]

end Shows

/-- The same matches of the tokens that are shown. -/
def correspondence (hidden : Nat → Bool) (base : List Nat) : Correspondence where
  left := r.Shows hidden base
  matched ms ms' := ms' = ms.map r.move
  nothing := nothing_moved
  append := append_of_moved
  stays {l l' m m'} h k _ hm' := by
    constructor
    · rintro rfl
      exact List.map_injective_iff.mpr r.injective (k.shown.symm.trans h.shown)
    · rintro rfl
      refine hm'.eq_of_length ?_
      rw [l'.length_eq_length_filter_add hidden, m'.length_eq_length_filter_add hidden, h.shown,
        h.hidden, k.shown, k.hidden]

/-- **A pattern is matched alike whether tokens that it overlooks are there or not.** -/
theorem aligns {p : Pattern} (h : p.Overlooks ys hidden) (base : List Nat) :
    (r.correspondence hidden base).Aligns (enumerate xs p) (enumerate ys p) := by
  refine Correspondence.aligns p fun l hl => ?_
  refine .ofLeaf r.place (fun hs => Shows.firstLeft_iff hs (h l hl)) r.injective ?_ fun _ _ => rfl
  intro left left' hs i t hi
  exact Shows.remove hs hi.mem

end Excerpt

namespace Matching

theorem map_getElem?_everything (tokens : List Token) :
    (everything tokens).map (tokens[·]?) = tokens.map some := by
  refine List.ext_getElem (by simp [everything]) fun i hi _ => ?_
  have hlt : i < tokens.length := by simpa [everything] using hi
  simp [everything, hlt]

/-- A property of tokens holds at as many places as there are tokens with it. -/
theorem countP_everything (q : Token → Bool) (tokens : List Token) :
    (everything tokens).countP (tokens[·]?.any q) = tokens.countP q := by
  have h := congrArg (List.countP (Option.any q)) (map_getElem?_everything tokens)
  rwa [List.countP_map, List.countP_map] at h

/-- The places of the tokens kept. -/
def keptPlaces (keep : Token → Bool) (tokens : List Token) : List Nat :=
  (everything tokens).filter (tokens[·]?.any keep)

variable {keep : Token → Bool} {tokens : List Token}

theorem map_getElem?_keptPlaces (keep : Token → Bool) (tokens : List Token) :
    (keptPlaces keep tokens).map (tokens[·]?) = (tokens.filter keep).map some := by
  have h := congrArg (List.filter (Option.any keep)) (map_getElem?_everything tokens)
  rwa [List.filter_map, List.filter_map] at h

theorem length_keptPlaces : (keptPlaces keep tokens).length = (tokens.filter keep).length := by
  have h := congrArg List.length (map_getElem?_keptPlaces keep tokens)
  rwa [List.length_map, List.length_map] at h

theorem lt_of_mem_keptPlaces {i : Nat} (h : i ∈ keptPlaces keep tokens) : i < tokens.length :=
  List.mem_range.mp (List.mem_of_mem_filter h)

/-- Where a token kept is found. What is beyond them is found beyond all tokens. -/
def keptPlace (keep : Token → Bool) (tokens : List Token) (i : Nat) : Nat :=
  (keptPlaces keep tokens).getD i (tokens.length + i)

theorem keptPlace_of_lt {i : Nat} (h : i < (keptPlaces keep tokens).length) :
    keptPlace keep tokens i = (keptPlaces keep tokens)[i] :=
  List.getD_eq_getElem _ _ h

theorem keptPlace_of_le {i : Nat} (h : (keptPlaces keep tokens).length ≤ i) :
    keptPlace keep tokens i = tokens.length + i :=
  List.getD_eq_default _ _ h

theorem keptPlace_lt_iff {i : Nat} :
    keptPlace keep tokens i < tokens.length ↔ i < (keptPlaces keep tokens).length := by
  rcases Nat.lt_or_ge i (keptPlaces keep tokens).length with h | h
  · rw [keptPlace_of_lt h]
    exact iff_of_true (lt_of_mem_keptPlaces (List.getElem_mem h)) h
  · rw [keptPlace_of_le h]
    omega

theorem keptPlace_injective : Function.Injective (keptPlace keep tokens) := by
  intro i j h
  have hiff : i < (keptPlaces keep tokens).length ↔ j < (keptPlaces keep tokens).length := by
    rw [← keptPlace_lt_iff, ← keptPlace_lt_iff, h]
  rcases Nat.lt_or_ge i (keptPlaces keep tokens).length with hi | hi
  · rw [keptPlace_of_lt hi, keptPlace_of_lt (hiff.mp hi)] at h
    have hnodup : (keptPlaces keep tokens).Nodup := List.nodup_range.filter _
    exact hnodup.getElem_inj_iff.mp h
  · rw [keptPlace_of_le hi, keptPlace_of_le (Nat.not_lt.mp (mt hiff.mpr (Nat.not_lt.mpr hi)))] at h
    exact Nat.add_left_cancel h

end Matching

namespace Excerpt

variable (keep : Token → Bool) (tokens : List Token)

/-- The tokens kept of a command line. -/
def kept : Excerpt (tokens.filter keep) tokens where
  place := keptPlace keep tokens
  injective := keptPlace_injective
  same i := by
    have hlength := @length_keptPlaces keep tokens
    rcases Nat.lt_or_ge i (keptPlaces keep tokens).length with hi | hi
    · have hi' : i < (tokens.filter keep).length := hlength ▸ hi
      have h := congrArg (·[i]?) (map_getElem?_keptPlaces keep tokens)
      simp only [List.getElem?_map, List.getElem?_eq_getElem hi,
        List.getElem?_eq_getElem hi', Option.map_some, Option.some.injEq] at h
      rw [keptPlace_of_lt hi, List.getElem?_eq_getElem hi', h]
    · rw [keptPlace_of_le hi, List.getElem?_eq_none (Nat.le_add_right _ _),
        List.getElem?_eq_none (hlength ▸ hi)]

theorem map_place_kept :
    (everything (tokens.filter keep)).map (kept keep tokens).place = keptPlaces keep tokens := by
  refine List.ext_getElem (by simp [everything, length_keptPlaces]) fun i _ hi => ?_
  simp only [everything, List.getElem_map, List.getElem_range]
  exact keptPlace_of_lt hi

/-- At the start the tokens kept are shown, and no others are left. -/
theorem shows_kept : (kept keep tokens).Shows (fun i => !tokens[i]?.any keep) []
    (everything (tokens.filter keep)) (keptPlaces keep tokens) where
  shown := by
    simp only [map_place_kept, Bool.not_not]
    exact List.filter_eq_self.mpr fun i hi => (List.mem_filter.mp hi).2
  hidden := List.filter_eq_nil_iff.mpr fun i hi => by simp [(List.mem_filter.mp hi).2]

/-- If no hidden token is left on one side, nothing is left there exactly if nothing is left on the
other side. -/
theorem Shows.eq_nil_iff {xs ys : List Token} {r : Excerpt xs ys} {hidden : Nat → Bool}
    {left left' : List Nat} (h : r.Shows hidden [] left left') : left' = [] ↔ left = [] := by
  have hall : left'.filter (!hidden ·) = left' := by
    refine List.filter_eq_self.mpr fun i hi => ?_
    rw [Bool.eq_false_iff.mpr (List.filter_eq_nil_iff.mp h.hidden i hi), Bool.not_false]
  rw [← hall, h.shown, List.map_eq_nil_iff]

end Excerpt

namespace Matching

/-- **Of a command line, a pattern matches the tokens kept** exactly if it matches the command line
that they make up, unless it looks for one of the others. -/
theorem derives_keptPlaces_iff {p : Pattern} {keep : Token → Bool}
    (h : ∀ l ∈ p.leaves, ∀ t, keep t = false → l.kind t = false) (tokens : List Token) :
    (∃ ms, Derives tokens p (keptPlaces keep tokens) [] ms) ↔
      (run (tokens.filter keep) p).matched.isSome = true := by
  have hoverlooks : p.Overlooks tokens fun i => !tokens[i]?.any keep := by
    intro l hl i hi t ht
    refine h l hl t ?_
    simpa [ht] using hi
  have haligns := (Excerpt.kept keep tokens).aligns hoverlooks [] _ _
    (Excerpt.shows_kept keep tokens)
  have hrun : (run (tokens.filter keep) p).matched.isSome = true ↔
      ∃ ms, Derives (tokens.filter keep) p (everything (tokens.filter keep)) [] ms :=
    settle_isSome_iff sound_empty p _
  rw [hrun, exists_derives_iff, exists_derives_iff, lefts, lefts, List.mem_map, List.mem_map]
  exact (forall₂_exists_iff haligns fun o o' ho => ho.left.eq_nil_iff.symm).symm

end Matching

end Synopsis
