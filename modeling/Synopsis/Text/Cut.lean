/-!
# Cutting a text at a separator

`cut? sep s` splits a text around the first place where the separator stands, and `offset? sep s`
counts the characters before it.
-/

namespace Synopsis.Text

/-- What follows the given start of a text. -/
def afterStart? : List Char → List Char → Option (List Char)
  | [], s => some s
  | _ :: _, [] => none
  | d :: start, c :: r => if d = c then afterStart? start r else none

/-- What stands before and after the first occurrence of the separator. -/
def cut? (sep : List Char) : List Char → Option (List Char × List Char)
  | [] => if sep.isEmpty then some ([], []) else none
  | c :: r =>
    match afterStart? sep (c :: r) with
    | some rest => some ([], rest)
    | none => (cut? sep r).map fun (before, after) => (c :: before, after)

/-- How many characters stand before the first occurrence of the separator. -/
def offset? (sep s : List Char) : Option Nat :=
  (cut? sep s).map fun (before, _) => before.length

/-- What stands after the first occurrence of the separator, and nothing if it does not occur. -/
def after (sep s : List Char) : List Char :=
  match cut? sep s with
  | some (_, rest) => rest
  | none => []

/-- What stands before the first occurrence of the character, and what stands after it if it
occurs. -/
def splitAt (c : Char) (s : List Char) : List Char × Option (List Char) :=
  match cut? [c] s with
  | some (before, after) => (before, some after)
  | none => (s, none)

theorem append_of_afterStart? {start s rest : List Char} (h : afterStart? start s = some rest) :
    s = start ++ rest := by
  induction start generalizing s with
  | nil => simpa [afterStart?] using h
  | cons d start ih =>
    cases s with
    | nil => simp [afterStart?] at h
    | cons c r =>
      by_cases hd : d = c
      · simp only [afterStart?, hd, if_true] at h
        simp [hd, ih h]
      · simp [afterStart?, hd] at h

theorem cut?_append {sep s before after : List Char} (h : cut? sep s = some (before, after)) :
    s = before ++ sep ++ after := by
  induction s generalizing before with
  | nil =>
    cases sep with
    | nil =>
      simp only [cut?, List.isEmpty_nil, if_true, Option.some.injEq, Prod.mk.injEq] at h
      simp [← h.1, ← h.2]
    | cons => simp [cut?] at h
  | cons c r ih =>
    cases hp : afterStart? sep (c :: r) with
    | some rest =>
      simp only [cut?, hp, Option.some.injEq, Prod.mk.injEq] at h
      obtain ⟨rfl, rfl⟩ := h
      simpa using append_of_afterStart? hp
    | none =>
      simp only [cut?, hp, Option.map_eq_some_iff, Prod.exists, Prod.mk.injEq] at h
      obtain ⟨b, a, hcut, rfl, rfl⟩ := h
      simp [ih hcut]

theorem splitAt_cons (c d : Char) (r : List Char) :
    splitAt c (d :: r) =
      if d = c then ([], some r) else (d :: (splitAt c r).1, (splitAt c r).2) := by
  by_cases hd : d = c
  · simp [splitAt, cut?, afterStart?, hd]
  · have hd' : ¬ c = d := fun h => hd h.symm
    cases hr : cut? [c] r <;> simp [splitAt, cut?, afterStart?, hd, hd', hr]

theorem splitAt_of_not_mem {c : Char} {s : List Char} (h : c ∉ s) : splitAt c s = (s, none) := by
  induction s with
  | nil => rfl
  | cons d r ih =>
    rw [List.mem_cons, not_or] at h
    rw [splitAt_cons, if_neg fun hd => h.1 hd.symm, ih h.2]

theorem splitAt_append {c : Char} {before : List Char} (h : c ∉ before) (after : List Char) :
    splitAt c (before ++ c :: after) = (before, some after) := by
  induction before with
  | nil => rw [List.nil_append, splitAt_cons, if_pos rfl]
  | cons d r ih =>
    rw [List.mem_cons, not_or] at h
    rw [List.cons_append, splitAt_cons, if_neg fun hd => h.1 hd.symm, ih h.2]

theorem splitAt_snd_isSome (c : Char) (s : List Char) :
    (splitAt c s).2.isSome = s.contains c := by
  by_cases h : c ∈ s
  · obtain ⟨before, after, rfl, hb⟩ := List.eq_append_cons_of_mem h
    rw [splitAt_append hb]
    simp
  · rw [splitAt_of_not_mem h]
    simp [h]

end Synopsis.Text
