import Synopsis.Section

/-!
# Scanning lines for a section

A section is looked for line by line. Lines that do not hold its name are passed over, and a block
of lines that the name heads is found.
-/

namespace Synopsis

namespace Text

/-- The lines with a newline after each. -/
def unlines (ls : List (List Char)) : List Char :=
  ls.flatMap (· ++ ['\n'])

theorem unlines_cons (l : List Char) (ls : List (List Char)) :
    unlines (l :: ls) = l ++ '\n' :: unlines ls := by
  rw [unlines, List.flatMap_cons, List.append_assoc, List.singleton_append, unlines]

theorem unlines_append (ls more : List (List Char)) :
    unlines (ls ++ more) = unlines ls ++ unlines more :=
  List.flatMap_append

theorem takeLine_line {l : List Char} (hl : '\n' ∉ l) (s : List Char) :
    takeLine (l ++ '\n' :: s) = (l ++ ['\n'], s) := by
  induction l with
  | nil => rfl
  | cons c l ih =>
    rw [List.mem_cons, not_or] at hl
    rw [List.cons_append, takeLine, if_neg (Ne.symm hl.1), ih hl.2]
    rfl

theorem lines_line {l : List Char} (hl : '\n' ∉ l) (s : List Char) :
    lines (l ++ '\n' :: s) = l :: lines s := by
  induction l with
  | nil => rfl
  | cons c l ih =>
    rw [List.mem_cons, not_or] at hl
    rw [List.cons_append, lines, if_neg (Ne.symm hl.1), ih hl.2]

theorem lines_unlines {ls : List (List Char)} (h : ∀ l ∈ ls, '\n' ∉ l) (s : List Char) :
    lines (unlines ls ++ s) = ls ++ lines s := by
  induction ls with
  | nil => rfl
  | cons l ls ih =>
    have hl := h l List.mem_cons_self
    have hls : ∀ k ∈ ls, '\n' ∉ k := fun k hk => h k (List.mem_cons_of_mem l hk)
    rw [unlines_cons, List.append_assoc, List.cons_append, lines_line hl, ih hls, List.cons_append]

/-- A word without a newline does not start on a line and end below it. -/
theorem afterLetters?_line {word l : List Char} (hw : ∀ d ∈ word, sameLetter d '\n' = false)
    (h : afterLetters? word l = none) (s : List Char) :
    afterLetters? word (l ++ '\n' :: s) = none := by
  induction word generalizing l with
  | nil => exact nomatch h
  | cons d word ih =>
    cases l with
    | nil =>
      rw [List.nil_append, afterLetters?, hw d List.mem_cons_self]
      rfl
    | cons c l =>
      rw [afterLetters?] at h
      rw [List.cons_append, afterLetters?]
      cases hd : sameLetter d c with
      | false => rfl
      | true =>
        rw [hd] at h
        exact ih (fun e he => hw e (List.mem_cons_of_mem d he)) h

end Text

namespace Section

variable {name : List Char} {line offset : Nat}

/-- The line holds the name. -/
def isHeading (name : List Char) : List Char → Bool
  | [] => (Text.afterLetters? name []).isSome
  | c :: l => (Text.afterLetters? name (c :: l)).isSome || isHeading name l

/-- The line is one that the name does not head. -/
def isOther (name l : List Char) : Bool :=
  !l.contains '\n' && !isHeading name l

theorem afterHeading?_line (hn : ∀ d ∈ name, Text.sameLetter d '\n' = false) {l : List Char}
    (h : isHeading name l = false) (s : List Char) :
    afterHeading? name (l ++ '\n' :: s) = none := by
  induction l with
  | nil =>
    rw [isHeading, Option.isSome_eq_false_iff, Option.isNone_iff_eq_none] at h
    have hnone := Text.afterLetters?_line hn h s
    rw [List.nil_append] at hnone ⊢
    rw [afterHeading?, hnone]
    rfl
  | cons c l ih =>
    rw [isHeading, Bool.or_eq_false_iff, Option.isSome_eq_false_iff,
      Option.isNone_iff_eq_none] at h
    have hnone := Text.afterLetters?_line hn h.1 s
    rw [List.cons_append] at hnone ⊢
    rw [afterHeading?, hnone]
    by_cases hc : c = '\n'
    · exact if_pos hc
    · exact (if_neg hc).trans (ih h.2)

theorem scan_nil (h : name ≠ []) : scan name line offset [] = [] := by
  rw [scan, dif_pos rfl, if_neg (by simp [h])]

/-- A line that does not hold the name is passed over. -/
theorem scan_line (hn : ∀ d ∈ name, Text.sameLetter d '\n' = false) {l : List Char}
    (h : isOther name l = true) (s : List Char) :
    scan name line offset (l ++ '\n' :: s) =
      scan name (line + 1) (offset + (l.length + 1)) s := by
  rw [isOther, Bool.and_eq_true, Bool.not_eq_true', Bool.not_eq_true',
    List.contains_eq_mem, decide_eq_false_iff_not] at h
  have hne : l ++ '\n' :: s ≠ [] := List.append_ne_nil_of_right_ne_nil _ (List.cons_ne_nil _ _)
  have hb : afterBlock? name (l ++ '\n' :: s) = none := by
    rw [afterBlock?, afterHeading?_line hn h.2, Option.map_none]
  have hend : endsLine (l ++ ['\n']) = true := by simp [endsLine]
  rw [scan, dif_neg hne]
  split
  · rename_i rest hrest
    rw [hb] at hrest
    cases hrest
  · simp only [Text.takeLine_line h.1, hend, Bool.not_true, Bool.and_false, Bool.false_eq_true,
      if_false, List.length_append, List.length_singleton]

/-- Lines that do not hold the name are passed over. -/
theorem scan_lines (hn : ∀ d ∈ name, Text.sameLetter d '\n' = false) {ls : List (List Char)}
    (h : ∀ l ∈ ls, isOther name l = true) (s : List Char) :
    scan name line offset (Text.unlines ls ++ s) =
      scan name (line + ls.length) (offset + (Text.unlines ls).length) s := by
  induction ls generalizing line offset with
  | nil => rfl
  | cons l ls ih =>
    have hl := h l List.mem_cons_self
    have hls : ∀ k ∈ ls, isOther name k = true := fun k hk => h k (List.mem_cons_of_mem l hk)
    rw [Text.unlines_cons, List.append_assoc, List.cons_append, scan_line hn hl, ih hls]
    congr 1
    · rw [List.length_cons]
      omega
    · rw [List.length_append, List.length_cons]
      omega

/-- A block of lines that the name heads is found, and the search goes on below it. -/
theorem endsLine_unlines {ls : List (List Char)} (h : ls ≠ []) :
    endsLine (Text.unlines ls) = true := by
  obtain ⟨init, l, rfl⟩ := (List.eq_nil_or_concat ls).resolve_left h
  simp [endsLine, Text.unlines]

theorem scan_block {block rest : List Char} (hb : afterBlock? name (block ++ rest) = some rest)
    (hend : endsLine block = true) :
    scan name line offset (block ++ rest) =
      ⟨String.ofList (Text.trim block), line, offset + block.length⟩ ::
        scan name (line + block.count '\n') (offset + block.length) rest := by
  have hne : block ++ rest ≠ [] := by
    refine List.append_ne_nil_of_left_ne_nil ?_ _
    rintro rfl
    cases hend
  have htake : (block ++ rest).take ((block ++ rest).length - rest.length) = block := by simp
  rw [scan, dif_neg hne]
  split
  · rename_i rest' hrest
    rw [hb] at hrest
    obtain rfl := Option.some.inj hrest
    rw [htake]
    simp only [hend, Bool.not_true, Bool.and_false, Bool.false_eq_true, if_false]
  · rename_i hrest
    rw [hb] at hrest
    cases hrest

end Section

end Synopsis
