import Mathlib.Data.List.Forall2
import Synopsis.Text.CaseFold

/-!
# Words up to case

A word may be spelled with other letters of the same classes. The signs below the letters have no
other spelling: a word without a newline is spelled on one line, and one with a colon is spelled
with a colon.
-/

namespace Synopsis.Text

theorem shifts_above_signs :
    (caseShifts.all fun s => decide ((97 : Int) ≤ s.span.first + s.distance)) = true := by
  decide +kernel

theorem ofNat_ne {n : Nat} {d : Char} (hn : 97 ≤ n) (hd : d.toNat < 97) (hnull : d ≠ '\x00') :
    Char.ofNat n ≠ d := by
  rintro rfl
  by_cases hv : n.isValidChar
  · have hcode : (Char.ofNat n).toNat = n := by
      rw [Char.ofNat, dif_pos hv]
      rfl
    omega
  · refine hnull ?_
    rw [Char.ofNat, dif_neg hv]
    rfl

/-- What stands below the letters in the code represents itself alone. -/
theorem foldCase_eq_sign {c d : Char} (hd : d.toNat < 97) (hnull : d ≠ '\x00')
    (h : foldCase c = d) : c = d := by
  unfold foldCase at h
  split at h
  next =>
    split at h
    next hupper =>
      have hle : ('A').toNat ≤ c.toNat := hupper.1
      rw [show ('A').toNat = 65 from rfl] at hle
      exact absurd h (ofNat_ne (by omega) hd hnull)
    next => exact h
  next =>
    split at h
    next s hs =>
      have hspan := List.find?_some hs
      have htable := List.all_eq_true.mp shifts_above_signs s (List.mem_of_find?_eq_some hs)
      rw [Span.has, Bool.and_eq_true, Bool.and_eq_true, decide_eq_true_eq] at hspan
      rw [decide_eq_true_eq] at htable
      have hfirst := hspan.1.1
      refine absurd h (ofNat_ne ?_ hd hnull)
      unfold Shift.target
      omega
    next => exact h

/-- A sign has no other spelling. -/
theorem eq_of_sameLetter {c d : Char} (hd : d.toNat < 65) (hnull : d ≠ '\x00')
    (h : sameLetter d c = true) : c = d := by
  have hself : foldCase d = d := by
    have hupper : ¬ ('A' ≤ d ∧ d ≤ 'Z') := fun hupper => by
      have hle : ('A').toNat ≤ d.toNat := hupper.1
      rw [show ('A').toNat = 65 from rfl] at hle
      omega
    rw [foldCase, if_pos (by omega), if_neg hupper]
  rw [sameLetter, hself, beq_iff_eq] at h
  exact foldCase_eq_sign (by omega) hnull h.symm

theorem sameLetter_newline {c : Char} (h : c ≠ '\n') : sameLetter c '\n' = false := by
  rw [← Bool.not_eq_true, sameLetter_comm]
  exact fun hc => h (eq_of_sameLetter (by decide) (by decide) hc)

theorem ascii_sameLetter_toLower :
    ∀ n : Fin 128, sameLetter (Char.ofNat n).toLower (Char.ofNat n) = true := by
  decide

/-- A letter of either case spells its lower case form. -/
theorem sameLetter_toLower (c : Char) : sameLetter c.toLower c = true := by
  by_cases hc : c.toNat < 128
  · have hascii := ascii_sameLetter_toLower ⟨c.toNat, hc⟩
    rwa [Char.ofNat_toNat] at hascii
  · have hsame : c.toLower = c := by
      refine dif_neg fun hupper => hc ?_
      have hle : c.toNat ≤ ('Z').toNat := hupper.2
      exact Nat.lt_of_le_of_lt hle (by decide)
    rw [hsame]
    exact sameLetter_refl c

/-- The word is spelled like the other one, but for the case of its letters. -/
def SameLetters (word other : List Char) : Prop :=
  List.Forall₂ (fun d c => sameLetter d c = true) word other

theorem afterLetters?_eq_some_iff {word s rest : List Char} :
    afterLetters? word s = some rest ↔ ∃ own, s = own ++ rest ∧ SameLetters word own := by
  induction word generalizing s with
  | nil =>
    rw [afterLetters?, Option.some.injEq]
    constructor
    · rintro rfl
      exact ⟨[], rfl, .nil⟩
    · rintro ⟨_, rfl, ⟨⟩⟩
      rfl
  | cons d word ih =>
    cases s with
    | nil =>
      refine iff_of_false (Option.some_ne_none rest).symm ?_
      rintro ⟨own, hs, hown⟩
      rw [(List.append_eq_nil_iff.mp hs.symm).1] at hown
      cases hown
    | cons c s =>
      rw [afterLetters?, Option.ite_none_right_eq_some, ih]
      constructor
      · rintro ⟨hd, own, rfl, hown⟩
        exact ⟨c :: own, rfl, .cons hd hown⟩
      · rintro ⟨own, hs, hown⟩
        cases hown with
        | cons hd hown =>
          obtain ⟨rfl, rfl⟩ := List.cons.inj hs
          exact ⟨hd, _, rfl, hown⟩

theorem afterLetters?_append {word l rest : List Char} (h : afterLetters? word l = some rest)
    (s : List Char) : afterLetters? word (l ++ s) = some (rest ++ s) := by
  obtain ⟨own, rfl, hown⟩ := afterLetters?_eq_some_iff.mp h
  exact afterLetters?_eq_some_iff.mpr ⟨own, List.append_assoc .., hown⟩

theorem SameLetters.newline_notMem {word own : List Char} (h : SameLetters word own)
    (hword : '\n' ∉ word) : '\n' ∉ own := by
  induction h with
  | nil => exact List.not_mem_nil
  | cons hd _ ih =>
    rw [List.mem_cons, not_or] at hword ⊢
    refine ⟨?_, ih hword.2⟩
    rintro rfl
    exact nomatch hd.symm.trans (sameLetter_newline (Ne.symm hword.1))

theorem SameLetters.sign_mem {word own : List Char} {d : Char} (h : SameLetters word own)
    (hd : d.toNat < 65) (hnull : d ≠ '\x00') (hword : d ∈ word) : d ∈ own := by
  induction h with
  | nil => exact nomatch hword
  | cons hc _ ih =>
    rcases List.mem_cons.mp hword with rfl | hword
    · rw [eq_of_sameLetter hd hnull hc]
      exact List.mem_cons_self
    · exact List.mem_cons_of_mem _ (ih hword)

/-- A sign that represents itself is spelled by itself alone. -/
theorem SameLetters.mem_of_sign {word own : List Char} {d : Char} (h : SameLetters word own)
    (hself : foldCase d = d) (hd : d.toNat < 97) (hnull : d ≠ '\x00') (hmem : d ∈ own) :
    d ∈ word := by
  induction h with
  | nil => exact nomatch hmem
  | cons hc _ ih =>
    rcases List.mem_cons.mp hmem with rfl | hmem
    · rw [sameLetter, hself, beq_iff_eq] at hc
      rw [foldCase_eq_sign hd hnull hc]
      exact List.mem_cons_self
    · exact List.mem_cons_of_mem _ (ih hmem)

/-- The word stands somewhere in the text, whatever the case. -/
def Holds (word s : List Char) : Prop :=
  ∃ before own after, s = before ++ (own ++ after) ∧ SameLetters word own

theorem Holds.cons {word s : List Char} (h : Holds word s) (c : Char) : Holds word (c :: s) := by
  obtain ⟨before, own, after, rfl, hown⟩ := h
  exact ⟨c :: before, own, after, rfl, hown⟩

theorem holds_of_start {word s rest : List Char} (h : afterLetters? word s = some rest) :
    Holds word s := by
  obtain ⟨own, rfl, hown⟩ := afterLetters?_eq_some_iff.mp h
  exact ⟨[], own, rest, rfl, hown⟩

end Synopsis.Text
