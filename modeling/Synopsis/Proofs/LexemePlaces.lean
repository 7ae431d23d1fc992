import Synopsis.Proofs.Spreading

/-!
# Where lexemes stand

Each piece of a line that is spread is looked for in the line as it was. So the pieces are the line
itself with blanks between them, `Tiles`, unless angle brackets hold a bracket, a bar or an
ellipsis: such a piece does not stand in the line as it is. `Covers` says the same by columns.
-/

namespace Synopsis.Lexeme

open Text (isBlank)

variable {s r piece gap line : List Char} {c : Char} {offset : Nat} {rest : List (List Char)}
  {placed : List (List Char × Nat)}

/-- **The pieces are the text with blanks between them**, each at its column, counted from the
offset of the text. -/
inductive Tiles : Nat → List Char → List (List Char × Nat) → Prop
  | blank {offset : Nat} {s : List Char} : (∀ c ∈ s, isBlank c = true) → Tiles offset s []
  | piece {offset : Nat} {gap piece s : List Char} {placed : List (List Char × Nat)} :
      (∀ c ∈ gap, isBlank c = true) →
      Tiles (offset + gap.length + piece.length) s placed →
      Tiles offset (gap ++ (piece ++ s)) ((piece, offset + gap.length) :: placed)

theorem Tiles.cons_inv {column : Nat}
    (h : Tiles offset s ((piece, column) :: placed)) :
    ∃ gap r, s = gap ++ (piece ++ r) ∧ (∀ c ∈ gap, isBlank c = true) ∧
      column = offset + gap.length ∧ Tiles (column + piece.length) r placed := by
  cases h with
  | piece hgap hmore => exact ⟨_, _, rfl, hgap, rfl, hmore⟩

theorem afterStart?_append (start r : List Char) :
    Text.afterStart? start (start ++ r) = some r := by
  induction start with
  | nil => rfl
  | cons c start ih => rw [List.cons_append, Text.afterStart?, if_pos rfl, ih]

/-- A piece that starts with no blank is found behind the blanks before it. -/
theorem cut?_gap (hgap : ∀ c ∈ gap, isBlank c = true) (hc : isBlank c = false) (r : List Char) :
    Text.cut? (c :: piece) (gap ++ (c :: piece ++ r)) = some (gap, r) := by
  induction gap with
  | nil =>
    rw [List.nil_append, List.cons_append, Text.cut?, ← List.cons_append, afterStart?_append]
  | cons b gap ih =>
    have hne : ¬ c = b := by
      rintro rfl
      rw [hgap c List.mem_cons_self] at hc
      cases hc
    rw [List.cons_append, Text.cut?, Text.afterStart?, if_neg hne,
      ih fun d hd => hgap d (List.mem_cons_of_mem b hd)]
    rfl

theorem place_gap (hline : line.drop offset = gap ++ (c :: piece ++ r))
    (hgap : ∀ c ∈ gap, isBlank c = true) (hc : isBlank c = false) :
    place line offset ((c :: piece) :: rest) = (c :: piece, offset + gap.length) ::
      place line (offset + gap.length + (c :: piece).length) rest := by
  have hoffset : Text.offset? (c :: piece) (line.drop offset) = some gap.length := by
    rw [Text.offset?, hline, cut?_gap hgap hc]
    rfl
  rw [place, hoffset]

theorem drop_append {line before : List Char} {offset : Nat} (h : line.drop offset = before ++ r) :
    line.drop (offset + before.length) = r := by
  rw [← List.drop_drop, h, List.drop_left]

theorem blank_of_mem_concat (hgap : ∀ c ∈ gap, isBlank c = true) (hc : isBlank c = true) :
    ∀ d ∈ gap ++ [c], isBlank d = true := by
  intro d hd
  rcases List.mem_append.mp hd with hd | hd
  · exact hgap d hd
  · rwa [List.mem_singleton.mp hd]

/-- A piece that stands behind a gap is placed there. -/
theorem tiles_place (hline : line.drop offset = gap ++ (c :: piece ++ r))
    (hgap : ∀ c ∈ gap, isBlank c = true) (hc : isBlank c = false)
    (hrest : ∀ offset, line.drop offset = r → Tiles offset r (place line offset rest)) :
    Tiles offset (gap ++ (c :: piece ++ r)) (place line offset ((c :: piece) :: rest)) := by
  rw [place_gap hline hgap hc]
  refine .piece hgap (hrest _ ?_)
  rw [← List.append_assoc] at hline
  have hdrop := drop_append hline
  rwa [List.length_append, ← Nat.add_assoc] at hdrop

/-- **No piece of the text but a mark itself has a mark in it**: no angle brackets hold one. -/
def HasWholePieces (s : List Char) : Prop :=
  ∀ piece ∈ pieces (spread s), IsWhole piece

/-- Pieces without marks in them are placed where they stand. -/
theorem tiles_of_whole (offset : Nat) (gap : List Char) (hline : line.drop offset = gap ++ s)
    (hgap : ∀ c ∈ gap, isBlank c = true) (h : HasWholePieces s) :
    Tiles offset (gap ++ s) (place line offset (pieces (spread s))) := by
  unfold HasWholePieces at h
  induction s using text_induction generalizing gap offset with
  | nil =>
    rw [List.append_nil, spread, pieces, place]
    exact .blank hgap
  | blank c r hc ih =>
    rw [spread_blank hc, pieces_blank hc] at h ⊢
    rw [← List.singleton_append, ← List.append_assoc] at hline ⊢
    exact ih _ _ hline (blank_of_mem_concat hgap hc) h
  | mark mark r hmark ih =>
    rw [pieces_mark hmark] at h ⊢
    obtain ⟨c, tail, rfl, hc⟩ := hmark.exists_cons
    exact tiles_place hline hgap hc fun offset hline =>
      ih offset [] hline (List.forall_mem_nil _) fun piece hpiece =>
        h piece (List.mem_cons_of_mem _ hpiece)
  | word c r hc hm ih =>
    obtain ⟨tail, after, hpieces, hspread, hends⟩ := exists_next hc hm
    rw [hpieces] at h ⊢
    obtain ⟨later, heq, rfl⟩ :=
      ((h _ List.mem_cons_self).verbatim hends).prefix_of_spread hspread
    rw [heq] at hline ih ⊢
    refine tiles_place hline hgap hc fun offset hline =>
      ih later ?_ offset [] hline (List.forall_mem_nil _) ?_
    · rw [List.length_append, List.length_cons]
      omega
    · exact fun piece hpiece => h piece (List.mem_cons_of_mem _ hpiece)

/-- The blanks that a text starts with end at its first other character. -/
theorem gap_unique {d : Char} {gap' later : List Char} (hgap : ∀ c ∈ gap, isBlank c = true)
    (hc : isBlank c = false) (hgap' : ∀ c ∈ gap', isBlank c = true) (hd : isBlank d = false)
    (h : gap ++ c :: r = gap' ++ d :: later) : gap = gap' := by
  have htake : ∀ {gap c r}, (∀ c ∈ gap, isBlank c = true) → isBlank c = false →
      (gap ++ c :: r).takeWhile isBlank = gap := by
    intro gap c r hgap hc
    rw [List.takeWhile_append_of_pos hgap, List.takeWhile_cons_of_neg (Bool.eq_false_iff.mp hc),
      List.append_nil]
  have hblanks := congrArg (List.takeWhile isBlank) h
  rwa [htake hgap hc, htake hgap' hd] at hblanks

theorem place_tiles (hgap : ∀ c ∈ gap, isBlank c = true) (hc : isBlank c = false)
    (h : Tiles offset (gap ++ (c :: r)) (place line offset ((c :: piece) :: rest))) :
    ∃ later, c :: r = c :: piece ++ later ∧ Tiles (offset + gap.length + (c :: piece).length) later
      (place line (offset + gap.length + (c :: piece).length) rest) := by
  rw [place] at h
  obtain ⟨gap', later, heq, hgap', hcolumn, hmore⟩ := h.cons_inv
  obtain rfl := gap_unique hgap hc hgap' hc heq
  rw [hcolumn] at hmore
  exact ⟨later, List.append_cancel_left heq, hmore⟩

/-- A piece with a mark in it is not placed where it stands. -/
theorem whole_of_tiles (gap : List Char) (hgap : ∀ c ∈ gap, isBlank c = true)
    (h : Tiles offset (gap ++ s) (place line offset (pieces (spread s)))) :
    HasWholePieces s := by
  unfold HasWholePieces
  induction s using text_induction generalizing gap offset with
  | nil =>
    rw [spread, pieces]
    exact List.forall_mem_nil _
  | blank c r hc ih =>
    rw [spread_blank hc, pieces_blank hc] at h ⊢
    rw [← List.singleton_append, ← List.append_assoc] at h
    exact ih _ (blank_of_mem_concat hgap hc) h
  | mark mark r hmark ih =>
    rw [pieces_mark hmark] at h ⊢
    obtain ⟨c, tail, rfl, hc⟩ := hmark.exists_cons
    obtain ⟨later, heq, hmore⟩ := place_tiles hgap hc h
    obtain rfl : r = later := (List.append_right_inj (c :: tail)).mp heq
    exact List.forall_mem_cons.mpr ⟨.inl hmark, ih [] (List.forall_mem_nil _) hmore⟩
  | word c r hc hm ih =>
    obtain ⟨tail, after, hpieces, hspread, -⟩ := exists_next hc hm
    rw [hpieces] at h ⊢
    obtain ⟨later, heq, hmore⟩ := place_tiles hgap hc h
    rw [heq] at hspread ih
    obtain ⟨hwhole, rfl⟩ := spread_prefix hspread
    refine List.forall_mem_cons.mpr ⟨.inr hwhole, ih later ?_ [] (List.forall_mem_nil _) hmore⟩
    rw [List.length_append, List.length_cons]
    omega

/-- **Every piece is a slice of the text at its column**, the columns go up from the offset, no two
pieces overlap, and from the offset on whatever is outside the pieces is blank. -/
structure Covers (text : List Char) (offset : Nat) (placed : List (List Char × Nat)) : Prop where
  start : ∀ x ∈ placed, offset ≤ x.2
  verbatim : ∀ x ∈ placed, (text.drop x.2).take x.1.length = x.1
  increasing : placed.Pairwise fun x y => x.2 < y.2
  apart : placed.Pairwise fun x y => x.2 + x.1.length ≤ y.2
  blank : ∀ i c, offset ≤ i → text[i]? = some c →
    (∀ x ∈ placed, ¬ (x.2 ≤ i ∧ i < x.2 + x.1.length)) → isBlank c = true

theorem mem_drop_iff : c ∈ s.drop offset ↔ ∃ i, offset ≤ i ∧ s[i]? = some c := by
  rw [List.mem_iff_getElem?]
  constructor
  · rintro ⟨i, hi⟩
    rw [List.getElem?_drop] at hi
    exact ⟨offset + i, Nat.le_add_right _ _, hi⟩
  · rintro ⟨i, hle, hi⟩
    refine ⟨i - offset, ?_⟩
    rwa [List.getElem?_drop, Nat.add_sub_cancel' hle]

theorem covers_of_tiles (hline : line.drop offset = s) (h : Tiles offset s placed)
    (hne : ∀ x ∈ placed, x.1 ≠ []) : Covers line offset placed := by
  induction h with
  | blank hblank =>
    refine ⟨nofun, nofun, .nil, .nil, fun i c hle hi _ => hblank c ?_⟩
    rw [← hline, mem_drop_iff]
    exact ⟨i, hle, hi⟩
  | @piece offset gap piece s placed hgap _ ih =>
    have hpiece := drop_append hline
    have hmore := ih (drop_append hpiece) fun x hx => hne x (List.mem_cons_of_mem _ hx)
    have hpos : 0 < piece.length := List.length_pos_iff.mpr (hne _ List.mem_cons_self)
    refine ⟨?_, ?_, ?_, ?_, ?_⟩
    · refine List.forall_mem_cons.mpr ⟨Nat.le_add_right _ _, fun x hx => ?_⟩
      have hstart := hmore.start x hx
      omega
    · refine List.forall_mem_cons.mpr ⟨?_, hmore.verbatim⟩
      rw [hpiece, List.take_left]
    · refine List.pairwise_cons.mpr ⟨fun x hx => ?_, hmore.increasing⟩
      have hstart := hmore.start x hx
      dsimp only
      omega
    · exact List.pairwise_cons.mpr ⟨hmore.start, hmore.apart⟩
    · intro i c hle hi hout
      obtain ⟨hhead, hout⟩ := List.forall_mem_cons.mp hout
      by_cases hlater : offset + gap.length + piece.length ≤ i
      · exact hmore.blank i c hlater hi hout
      · refine hgap c (List.mem_iff_getElem?.mpr ⟨i - offset, ?_⟩)
        have hin : i - offset < gap.length := by
          dsimp only at hhead
          omega
        rw [← List.getElem?_append_left hin, ← hline, List.getElem?_drop, Nat.add_sub_cancel' hle]
        exact hi

theorem drop_eq_append {column : Nat} (h : (line.drop column).take piece.length = piece) :
    line.drop column = piece ++ line.drop (column + piece.length) := by
  rw [← List.drop_drop]
  conv_lhs => rw [← List.take_append_drop piece.length (line.drop column), h]

theorem lt_length_of_take {column : Nat} (h : (line.drop column).take piece.length = piece)
    (hne : piece ≠ []) : column < line.length := by
  by_contra hover
  rw [List.drop_eq_nil_of_le (Nat.not_lt.mp hover), List.take_nil] at h
  exact hne h.symm

namespace Covers

variable {column : Nat}

/-- Before the first piece there are blanks only. -/
theorem isBlank_before (h : Covers line offset ((piece, column) :: placed)) :
    ∀ c ∈ (line.drop offset).take (column - offset), isBlank c = true := by
  intro c hc
  obtain ⟨j, hj⟩ := List.mem_iff_getElem?.mp hc
  rw [List.getElem?_take] at hj
  split at hj
  next hlt =>
    rw [List.getElem?_drop] at hj
    have hafter := (List.pairwise_cons.mp h.increasing).1
    dsimp only at hafter
    refine h.blank (offset + j) c (by omega) hj (List.forall_mem_cons.mpr ⟨?_, fun x hx => ?_⟩)
    · dsimp only
      omega
    · have hlater := hafter x hx
      omega
  next => exact nomatch hj

/-- Behind the first piece the others cover the text. -/
theorem behind (h : Covers line offset ((piece, column) :: placed)) :
    Covers line (column + piece.length) placed := by
  obtain ⟨hstart, -⟩ := List.forall_mem_cons.mp h.start
  obtain ⟨hafter, hapart⟩ := List.pairwise_cons.mp h.apart
  dsimp only at hstart
  refine ⟨hafter, (List.forall_mem_cons.mp h.verbatim).2, (List.pairwise_cons.mp h.increasing).2,
    hapart, fun i c hle hi hout => ?_⟩
  refine h.blank i c (by omega) hi (List.forall_mem_cons.mpr ⟨?_, hout⟩)
  dsimp only
  omega

end Covers

theorem tiles_of_covers (h : Covers line offset placed) (hne : ∀ x ∈ placed, x.1 ≠ []) :
    Tiles offset (line.drop offset) placed := by
  induction placed generalizing offset with
  | nil =>
    refine .blank fun c hc => ?_
    obtain ⟨i, hle, hi⟩ := mem_drop_iff.mp hc
    exact h.blank i c hle hi nofun
  | cons x placed ih =>
    obtain ⟨piece, column⟩ := x
    obtain ⟨hpiece, hrest⟩ := List.forall_mem_cons.mp hne
    have hstart : offset ≤ column := h.start _ List.mem_cons_self
    have hverbatim := h.verbatim _ List.mem_cons_self
    have hcolumn := lt_length_of_take hverbatim hpiece
    have hgap : line.drop offset =
        (line.drop offset).take (column - offset) ++ line.drop column := by
      conv_lhs => rw [← List.take_append_drop (column - offset) (line.drop offset)]
      rw [List.drop_drop, Nat.add_sub_cancel' hstart]
    have hlength : column = offset + ((line.drop offset).take (column - offset)).length := by
      rw [List.length_take, List.length_drop]
      omega
    have htiles : Tiles offset _ _ := .piece h.isBlank_before (hlength ▸ ih h.behind hrest)
    rwa [← hlength, ← drop_eq_append hverbatim, ← hgap] at htiles

/-- What holds of all pieces holds of them where they are placed. -/
theorem place_all {ok : List Char → Prop} (h : ∀ piece ∈ rest, ok piece) :
    ∀ x ∈ place line offset rest, ok x.1 := by
  induction rest generalizing offset with
  | nil => exact nofun
  | cons piece rest ih =>
    obtain ⟨hpiece, hrest⟩ := List.forall_mem_cons.mp h
    rw [place]
    exact List.forall_mem_cons.mpr ⟨hpiece, ih hrest⟩

theorem ne_nil_of_mem_pieces : ∀ piece ∈ pieces s, piece ≠ [] := by
  intro piece hpiece
  obtain ⟨c, tail, rfl, -⟩ := pieces_starts s piece hpiece
  exact nofun

/-- The lexemes of a line cover it exactly if each of them is whole. -/
theorem splitLine_covers_iff (line : List Char) :
    Covers line 0 (splitLine line) ↔ HasWholePieces line := by
  have hne : ∀ x ∈ splitLine line, x.1 ≠ [] := place_all ne_nil_of_mem_pieces
  constructor
  · exact fun h => whole_of_tiles [] nofun (tiles_of_covers h hne)
  · exact fun h => covers_of_tiles rfl (tiles_of_whole 0 [] rfl nofun h) hne

/-- Blanks at the start of a text may be left out. -/
theorem Tiles.drop_gap (h : Tiles offset (gap ++ s) placed) (hgap : ∀ c ∈ gap, isBlank c = true)
    (hstarts : ∀ x ∈ placed, ∃ c tail, x.1 = c :: tail ∧ isBlank c = false) :
    Tiles (offset + gap.length) s placed := by
  generalize htext : gap ++ s = text at h
  cases h with
  | blank hblank =>
    rw [← htext] at hblank
    exact .blank fun c hc => hblank c (List.mem_append_right gap hc)
  | @piece _ gap' piece r placed hgap' hmore =>
    obtain ⟨c, tail, hpiece, hc⟩ := hstarts _ List.mem_cons_self
    have hcut : ∃ inner, gap' = gap ++ inner := by
      rcases List.append_eq_append_iff.mp htext with ⟨inner, heq, -⟩ | ⟨inner, heq, hs⟩
      · exact ⟨inner, heq⟩
      · cases inner with
        | nil => exact ⟨[], by rw [heq, List.append_nil, List.append_nil]⟩
        | cons d inner =>
          dsimp only at hpiece
          rw [hpiece, List.cons_append, List.cons_append, List.cons.injEq] at hs
          rw [heq, ← hs.1] at hgap
          rw [hgap c (by simp)] at hc
          exact nomatch hc
    obtain ⟨inner, rfl⟩ := hcut
    rw [List.append_assoc, List.append_cancel_left_eq] at htext
    rw [htext]
    rw [List.length_append, ← Nat.add_assoc] at hmore ⊢
    exact .piece (fun d hd => hgap' d (List.mem_append_right gap hd)) hmore

theorem pieces_gap (hgap : ∀ c ∈ gap, isBlank c = true) (s : List Char) :
    pieces (spread (gap ++ s)) = pieces (spread s) := by
  induction gap with
  | nil => rfl
  | cons c gap ih =>
    obtain ⟨hc, hgap⟩ := List.forall_mem_cons.mp hgap
    rw [List.cons_append, spread_blank hc, pieces_blank hc, ih hgap]

/-- A line whose start is blanked out is covered from there on. -/
theorem covers_blanked {stop : Nat} (h : HasWholePieces (line.drop stop)) :
    Covers line stop (splitLine (List.replicate stop ' ' ++ line.drop stop)) := by
  have hgap : ∀ c ∈ List.replicate stop ' ', isBlank c = true := fun c hc => by
    rw [List.eq_of_mem_replicate hc]
    exact Text.isBlank_space
  have htiles := tiles_of_whole 0 (List.replicate stop ' ') rfl hgap h
  rw [← pieces_gap hgap] at htiles
  have hstarts : ∀ x ∈ splitLine (List.replicate stop ' ' ++ line.drop stop),
      ∃ c tail, x.1 = c :: tail ∧ isBlank c = false :=
    place_all (pieces_starts (spread (List.replicate stop ' ' ++ line.drop stop)))
  have hdropped := htiles.drop_gap hgap hstarts
  rw [List.length_replicate, Nat.zero_add] at hdropped
  refine covers_of_tiles rfl hdropped fun x hx => ?_
  obtain ⟨c, tail, hx, -⟩ := hstarts x hx
  rw [hx]
  exact nofun

end Synopsis.Lexeme
