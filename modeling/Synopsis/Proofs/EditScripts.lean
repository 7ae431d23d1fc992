import Mathlib.Data.List.Basic
import Mathlib.Order.Bounds.Basic
import Synopsis.Text.EditDistance

/-!
# Edit scripts

An edit inserts, deletes or replaces one character, and a script is so many edits one after the
other. The distance of two texts is the length of a shortest script from one to the other: there is
a script of that length, and no edit changes the distance to any text by more than one. The table
is filled row by row, and each entry is the distance of two starts of the texts.
-/

namespace Synopsis.Text

/-- One character is inserted, deleted or replaced. -/
inductive Edit : List Char → List Char → Prop
  | insert (before : List Char) (c : Char) (after : List Char) :
      Edit (before ++ after) (before ++ c :: after)
  | delete (before : List Char) (c : Char) (after : List Char) :
      Edit (before ++ c :: after) (before ++ after)
  | replace (before : List Char) (c d : Char) (after : List Char) :
      Edit (before ++ c :: after) (before ++ d :: after)

/-- So many edits, one after the other. -/
inductive Edits : Nat → List Char → List Char → Prop
  | none (s : List Char) : Edits 0 s s
  | edit {n : Nat} {s t u : List Char} : Edit s t → Edits n t u → Edits (n + 1) s u

variable {m n : Nat} {s t u : List Char}

namespace Edit

theorem symm (h : Edit s t) : Edit t s := by
  cases h with
  | insert before c after => exact .delete before c after
  | delete before c after => exact .insert before c after
  | replace before c d after => exact .replace before d c after

theorem cons (c : Char) (h : Edit s t) : Edit (c :: s) (c :: t) := by
  cases h with
  | insert before d after => exact .insert (c :: before) d after
  | delete before d after => exact .delete (c :: before) d after
  | replace before d e after => exact .replace (c :: before) d e after

theorem reverse (h : Edit s t) : Edit s.reverse t.reverse := by
  cases h with
  | insert before c after =>
    rw [List.reverse_append, List.reverse_append, List.reverse_cons, List.append_assoc]
    exact .insert after.reverse c before.reverse
  | delete before c after =>
    rw [List.reverse_append, List.reverse_append, List.reverse_cons, List.append_assoc]
    exact .delete after.reverse c before.reverse
  | replace before c d after =>
    rw [List.reverse_append, List.reverse_append, List.reverse_cons, List.reverse_cons,
      List.append_assoc, List.append_assoc]
    exact .replace after.reverse c d before.reverse

end Edit

namespace Edits

theorem single (h : Edit s t) : Edits 1 s t :=
  .edit h (.none t)

theorem trans (h : Edits m s t) (k : Edits n t u) : Edits (m + n) s u := by
  induction h with
  | none s => rwa [Nat.zero_add]
  | edit h _ ih =>
    rw [Nat.succ_add]
    exact .edit h (ih k)

theorem symm (h : Edits n s t) : Edits n t s := by
  induction h with
  | none s => exact .none s
  | edit h _ ih => exact ih.trans (single h.symm)

theorem cons (c : Char) (h : Edits n s t) : Edits n (c :: s) (c :: t) := by
  induction h with
  | none s => exact .none (c :: s)
  | edit h _ ih => exact .edit (h.cons c) ih

theorem reverse (h : Edits n s t) : Edits n s.reverse t.reverse := by
  induction h with
  | none s => exact .none s.reverse
  | edit h _ ih => exact .edit h.reverse ih

/-- No edit at all changes nothing. -/
theorem zero_iff : Edits 0 s t ↔ s = t := by
  constructor
  · rintro ⟨⟩
    rfl
  · rintro rfl
    exact .none s

/-- Of two scripts one is as short as both. -/
theorem least (h : Edits m s t) (k : Edits n s t) : Edits (min m n) s t := by
  rcases Nat.le_total m n with hle | hle
  · rwa [Nat.min_eq_left hle]
  · rwa [Nat.min_eq_right hle]

/-- A text is written character by character. -/
theorem write (t : List Char) : Edits t.length [] t := by
  induction t with
  | nil => exact .none []
  | cons c t ih => exact ih.trans (single (.insert [] c t))

end Edits

/-- The least number of edits between two texts, as found from their first characters: one of them
is deleted, the other inserted, or one stands against the other. -/
def distance : List Char → List Char → Nat
  | [], t => t.length
  | c :: s, [] => (c :: s).length
  | c :: s, d :: t =>
    min (min (distance s (d :: t) + 1) (distance (c :: s) t + 1))
      (distance s t + if c = d then 0 else 1)
termination_by s t => s.length + t.length

section Distance

variable (c d : Char) (s t u : List Char)

theorem distance_nil_left : distance [] t = t.length := by
  rw [distance]

theorem distance_nil_right : distance s [] = s.length := by
  cases s with
  | nil => rw [distance]
  | cons c s => rw [distance]

theorem distance_cons_cons : distance (c :: s) (d :: t) =
    min (min (distance s (d :: t) + 1) (distance (c :: s) t + 1))
      (distance s t + if c = d then 0 else 1) := by
  rw [distance]

theorem distance_cons_left_le : distance (c :: s) t ≤ distance s t + 1 := by
  cases t with
  | nil => rw [distance_nil_right, distance_nil_right, List.length_cons]
  | cons d t =>
    rw [distance_cons_cons]
    omega

theorem distance_cons_right_le : distance s (c :: t) ≤ distance s t + 1 := by
  cases s with
  | nil => rw [distance_nil_left, distance_nil_left, List.length_cons]
  | cons d s =>
    rw [distance_cons_cons]
    omega

theorem distance_cons_cons_le : distance (c :: s) (d :: t) ≤ distance s t + 1 := by
  rw [distance_cons_cons]
  split <;> omega

theorem distance_self : distance s s = 0 := by
  induction s with
  | nil => rw [distance_nil_left, List.length_nil]
  | cons c s ih =>
    rw [distance_cons_cons, if_pos rfl, ih]
    omega

theorem distance_le_max : distance s t ≤ max s.length t.length := by
  induction s generalizing t with
  | nil =>
    rw [distance_nil_left]
    exact Nat.le_max_right _ _
  | cons c s ih =>
    cases t with
    | nil =>
      rw [distance_nil_right]
      exact Nat.le_max_left _ _
    | cons d t =>
      have hle := distance_cons_cons_le c d s t
      have hih := ih t
      rw [List.length_cons, List.length_cons]
      omega

end Distance

/-- **Two texts are near** if no text is more than one edit farther from the first than from the
second. -/
def Near (s t : List Char) : Prop :=
  ∀ u, distance s u ≤ distance t u + 1

namespace Near

/-- A character that both texts start with keeps them near. -/
theorem cons (c : Char) (h : Near s t) : Near (c :: s) (c :: t) := by
  intro u
  induction u with
  | nil =>
    have hnil := h []
    rw [distance_nil_right, distance_nil_right] at hnil ⊢
    rw [List.length_cons, List.length_cons]
    omega
  | cons d u ih =>
    have hwhole := h (d :: u)
    have hrest := h u
    rw [distance_cons_cons, distance_cons_cons]
    omega

theorem deleted (c : Char) (s : List Char) : Near (c :: s) s :=
  fun u => distance_cons_left_le c s u

theorem inserted (c : Char) (s : List Char) : Near s (c :: s) := by
  intro u
  induction u with
  | nil =>
    rw [distance_nil_right, distance_nil_right, List.length_cons]
    omega
  | cons d u ih =>
    -- From `s` the first of the three ways needs no deletion, the last one an insertion instead.
    have hright := distance_cons_right_le d s u
    rw [distance_cons_cons]
    omega

theorem replaced (c d : Char) (s : List Char) : Near (c :: s) (d :: s) := by
  intro u
  induction u with
  | nil =>
    rw [distance_nil_right, distance_nil_right, List.length_cons, List.length_cons]
    omega
  | cons e u ih =>
    have hleft := distance_cons_left_le c s (e :: u)
    have hright := distance_cons_right_le e (c :: s) u
    have hboth := distance_cons_cons_le c e s u
    rw [distance_cons_cons d e]
    omega

theorem append (before : List Char) (h : Near s t) : Near (before ++ s) (before ++ t) := by
  induction before with
  | nil => exact h
  | cons c before ih => exact ih.cons c

end Near

/-- **An edit leads to a text near by.** -/
theorem Edit.near (h : Edit s t) : Near s t := by
  cases h with
  | insert before c after => exact (Near.inserted c after).append before
  | delete before c after => exact (Near.deleted c after).append before
  | replace before c d after => exact (Near.replaced c d after).append before

/-- **No script is shorter than the distance.** -/
theorem Edits.distance_le (h : Edits n s t) : distance s t ≤ n := by
  induction h with
  | none s => exact Nat.le_of_eq (distance_self s)
  | @edit n s t u h _ ih =>
    have hnear := h.near u
    omega

/-- **There is a script as short as the distance.** The induction is on the characters of both
texts. -/
theorem edits_distance (s t : List Char) : Edits (distance s t) s t := by
  fun_induction distance s t with
  | case1 t => exact .write t
  | case2 c s => exact (Edits.write (c :: s)).symm
  | case3 c s d t hdelete hinsert hboth =>
    have hdeleted : Edits (distance s (d :: t) + 1) (c :: s) (d :: t) :=
      .edit (.delete [] c s) hdelete
    have hinserted : Edits (distance (c :: s) t + 1) (c :: s) (d :: t) :=
      hinsert.trans (.single (.insert [] d t))
    have hagainst : Edits (distance s t + if c = d then 0 else 1) (c :: s) (d :: t) := by
      split
      case isTrue h =>
        rw [← h]
        exact hboth.cons c
      case isFalse => exact (hboth.cons c).trans (.single (.replace [] c d t))
    exact (hdeleted.least hinserted).least hagainst

/-- **The distance is the length of a shortest script.** -/
theorem distance_isLeast (s t : List Char) : IsLeast {n | Edits n s t} (distance s t) :=
  ⟨edits_distance s t, fun _ h => h.distance_le⟩

/-- It is all one from which end texts are read. -/
theorem distance_reverse (s t : List Char) : distance s.reverse t.reverse = distance s t := by
  refine (distance_isLeast s.reverse t.reverse).unique ⟨(edits_distance s t).reverse, ?_⟩
  intro n h
  have hback := Edits.reverse h
  rw [List.reverse_reverse, List.reverse_reverse] at hback
  exact hback.distance_le

/-- The entries of a row from some column on: the distances of a text to another one and to each of
its continuations. Both texts are given from their ends. -/
def entries (r q : List Char) : List Char → List Nat
  | [] => [distance r q]
  | d :: t => distance r q :: entries r (d :: q) t

theorem entries_eq_cons (r q t : List Char) :
    entries r q t = distance r q :: (entries r q t).tail := by
  cases t <;> rfl

theorem firstRow_eq (t : List Char) : firstRow t = entries [] [] t := by
  have h : ∀ q, List.range' q.length (t.length + 1) = entries [] q t := by
    induction t with
    | nil =>
      intro q
      rw [entries, distance_nil_left]
      rfl
    | cons d t ih =>
      intro q
      rw [entries, ← ih (d :: q), distance_nil_left, List.length_cons, List.range'_succ,
        List.length_cons]
  rw [firstRow, List.range_eq_range']
  exact h []

/-- **One entry after the other** is the least of its three neighbours, as a distance is. -/
theorem nextEntries_eq (c : Char) (r q t : List Char) :
    nextEntries c (distance (c :: r) q) (entries r q t) t = (entries (c :: r) q t).tail := by
  induction t generalizing q with
  | nil => rfl
  | cons d t ih =>
    -- Above the new entry is the one for `d :: q`, in the corner and before it those for `q`.
    have hentry : min (min (distance r (d :: q) + 1) (distance (c :: r) q + 1))
        (distance r q + if c = d then 0 else 1) = distance (c :: r) (d :: q) :=
      (distance_cons_cons c d r q).symm
    rw [entries, entries_eq_cons r (d :: q), nextEntries, hentry, ← entries_eq_cons, ih, entries,
      List.tail_cons, ← entries_eq_cons]

theorem nextRow_eq (c : Char) (r t : List Char) :
    nextRow t (entries r [] t) c = entries (c :: r) [] t := by
  have hfirst : (entries r [] t).headD 0 + 1 = distance (c :: r) [] := by
    rw [entries_eq_cons, List.headD_cons, distance_nil_right, distance_nil_right, List.length_cons]
  rw [nextRow, hfirst, nextEntries_eq, ← entries_eq_cons]

/-- Each character of the text gives one more row. -/
theorem foldl_nextRow (r s t : List Char) :
    s.foldl (nextRow t) (entries r [] t) = entries (s.reverse ++ r) [] t := by
  induction s generalizing r with
  | nil => rfl
  | cons c s ih => rw [List.foldl_cons, nextRow_eq, ih, List.reverse_cons, List.append_assoc,
      List.singleton_append]

theorem length_entries (r q t : List Char) : (entries r q t).length = t.length + 1 := by
  induction t generalizing q with
  | nil => rfl
  | cons d t ih => rw [entries, List.length_cons, ih, List.length_cons]

theorem getElem?_entries (r q t : List Char) {j : Nat} (hj : j ≤ t.length) :
    (entries r q t)[j]? = some (distance r ((t.take j).reverse ++ q)) := by
  induction t generalizing q j with
  | nil =>
    obtain rfl := Nat.le_zero.mp hj
    rfl
  | cons d t ih =>
    cases j with
    | zero => rfl
    | succ j =>
      rw [entries, List.getElem?_cons_succ, ih (d :: q) (Nat.le_of_succ_le_succ hj),
        List.take_succ_cons, List.reverse_cons, List.append_assoc, List.singleton_append]

/-- **Every entry of the table is the distance of two starts**: the row of a text holds its
distances to all starts of the other one. -/
theorem getElem?_row (s t : List Char) {j : Nat} (hj : j ≤ t.length) :
    (s.foldl (nextRow t) (firstRow t))[j]? = some (distance s (t.take j)) := by
  rw [firstRow_eq, foldl_nextRow, getElem?_entries _ _ _ hj, List.append_nil, List.append_nil,
    distance_reverse]

theorem editDistance_eq (s t : List Char) : editDistance s t = distance s t := by
  have hlength : (s.foldl (nextRow t) (firstRow t)).length - 1 = t.length := by
    rw [firstRow_eq, foldl_nextRow, length_entries, Nat.add_sub_cancel]
  rw [editDistance, List.getLastD_eq_getLast?, List.getLast?_eq_getElem?, hlength,
    getElem?_row s t (Nat.le_refl _), List.take_length, Option.getD_some]

/-- **The table computes the edit distance**, which is a metric and no more than the length of the
longer text. -/
theorem editDistance_isLeast (s t u : List Char) :
    IsLeast {n | Edits n s t} (editDistance s t) ∧
    editDistance t s = editDistance s t ∧
    (editDistance s t = 0 ↔ s = t) ∧
    editDistance s u ≤ editDistance s t + editDistance t u ∧
    editDistance s t ≤ max s.length t.length := by
  simp only [editDistance_eq]
  refine ⟨distance_isLeast s t, ?_, ?_, ?_, distance_le_max s t⟩
  · refine (distance_isLeast t s).unique ⟨(edits_distance s t).symm, ?_⟩
    intro n h
    exact (Edits.symm h).distance_le
  · constructor
    · intro h
      have hscript := edits_distance s t
      rw [h] at hscript
      exact Edits.zero_iff.mp hscript
    · rintro rfl
      exact distance_self s
  · exact ((edits_distance s t).trans (edits_distance t u)).distance_le

end Synopsis.Text
