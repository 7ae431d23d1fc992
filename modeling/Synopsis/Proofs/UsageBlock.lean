import Synopsis.Proofs.LexemeBreaks
import Synopsis.Proofs.SectionBlocks
import Synopsis.Proofs.UsagePlaces

/-!
# The usage section as a block of lines

A usage section is read exactly if one block of lines is headed by the label, its lexemes are not
none, and no usage line stands below it. What is read are the lexemes of all lines of the block, the
first one being blanked out up to the label: the blank lines at its end, which the section is shown
without, have none.
-/

namespace Synopsis

namespace Section

variable {name l : List Char} {number : Nat} {ls above : List (List Char)} {b : Block}

/-- **The only block that a name heads**, among the lines above and below it, the first of which has
the given number. -/
structure OnlyBlock (name : List Char) (number : Nat) (ls above : List (List Char)) (b : Block) :
    Prop where
  cut : ls = above ++ (b.lines ++ b.below)
  number : b.number = number + above.length
  heading : isHeading name b.heading = true
  more : ∀ k ∈ b.more, isIndented k = true
  behind : ∀ k ∈ b.below.head?, isIndented k = false
  others : ∀ k ∈ above ++ b.below, isHeading name k = false

theorem blocks_nil_iff : Blocks name number ls [] ↔ ∀ l ∈ ls, isHeading name l = false := by
  constructor
  · intro h
    generalize hfound : ([] : List Block) = found at h
    induction h with
    | nil => exact List.forall_mem_nil _
    | other hl _ ih => exact List.forall_mem_cons.mpr ⟨hl, ih hfound⟩
    | block => exact nomatch hfound
  · intro h
    induction ls generalizing number with
    | nil => exact .nil
    | cons l ls ih =>
      obtain ⟨hl, hls⟩ := List.forall_mem_cons.mp h
      exact .other hl (ih hls)

theorem blocks_above (h : ∀ l ∈ above, isHeading name l = false) {found : List Block}
    (hls : Blocks name (number + above.length) ls found) :
    Blocks name number (above ++ ls) found := by
  induction above generalizing number with
  | nil => exact hls
  | cons l above ih =>
    obtain ⟨hl, habove⟩ := List.forall_mem_cons.mp h
    refine .other hl (ih habove ?_)
    rwa [Nat.add_assoc, Nat.add_comm 1]

theorem blocks_singleton_iff :
    Blocks name number ls [b] ↔ ∃ above, OnlyBlock name number ls above b := by
  constructor
  · intro h
    generalize hfound : [b] = found at h
    induction h with
    | nil => exact nomatch hfound
    | @other number l ls found hl _ ih =>
      obtain ⟨above, h⟩ := ih hfound
      refine ⟨l :: above, congrArg (l :: ·) h.cut, ?_, h.heading, h.more, h.behind,
        List.forall_mem_cons.mpr ⟨hl, h.others⟩⟩
      rw [h.number, List.length_cons]
      omega
    | block hl hmore hbelow hrest _ =>
      obtain ⟨rfl, rfl⟩ := List.cons.inj hfound
      exact ⟨[], rfl, rfl, hl, hmore, hbelow, blocks_nil_iff.mp hrest⟩
  · rintro ⟨above, h⟩
    obtain ⟨_, heading, more, below⟩ := b
    obtain rfl := h.number
    obtain ⟨habove, hbelow⟩ := List.forall_mem_append.mp h.others
    rw [h.cut]
    exact blocks_above habove (.block h.heading h.more h.behind (blocks_nil_iff.mpr hbelow))

/-- **One section is found exactly if there is one block.** -/
theorem findAll_eq_singleton_iff {name source : String} (hname : name.toList ≠ [])
    (hn : '\n' ∉ name.toList) {found : Section} :
    findAll name source = [found] ↔
      ∃ above b, OnlyBlock name.toList 1 (Text.lines source.toList) above b ∧
        found = b.section source.toList.length := by
  constructor
  · intro h
    obtain ⟨blocks, hblocks⟩ := exists_blocks name.toList 1 (Text.lines source.toList)
    rw [findAll_eq_blocks hname hn hblocks] at h
    obtain ⟨b, rfl, rfl⟩ := List.map_eq_singleton_iff.mp h
    obtain ⟨above, hb⟩ := blocks_singleton_iff.mp hblocks
    exact ⟨above, b, hb, rfl⟩
  · rintro ⟨above, b, hb, rfl⟩
    rw [findAll_eq_blocks hname hn (blocks_singleton_iff.mpr ⟨above, hb⟩)]
    rfl

end Section

namespace Usage

open Section (Block OnlyBlock)
open Lexeme (pieces spread splitLine)

variable {source : String} {found : Section} {above ls : List (List Char)} {b : Block}
  {program : Lexeme} {rest : List Lexeme} {stop : Nat}

/-- The block is the only one that the label of a usage section heads. -/
abbrev IsBlock (source : String) (above : List (List Char)) (b : Block) : Prop :=
  OnlyBlock label.toList 1 (Text.lines source.toList) above b

theorem find_eq_ok_iff : find source = .ok found ↔ ∃ above b, IsBlock source above b ∧
    found = b.section source.toList.length := by
  rw [← Section.findAll_eq_singleton_iff (by decide) (by decide)]
  unfold find label
  split <;> rename_i heq <;> simp [heq]

theorem fst_place (line : List Char) (offset : Nat) (ps : List (List Char)) :
    (Lexeme.place line offset ps).map Prod.fst = ps := by
  induction ps generalizing offset with
  | nil => rfl
  | cons p ps ih =>
    rw [Lexeme.place]
    exact congrArg (p :: ·) (ih _)

/-- The lexemes of lines when their places are forgotten. -/
theorem texts_lexemes (number : Nat) (ls : List (List Char)) :
    (lexemes number ls).map Lexeme.text =
      ls.flatMap fun l => (pieces (spread l)).map String.ofList := by
  induction ls generalizing number with
  | nil => rfl
  | cons l ls ih =>
    rw [lexemes, List.map_append, ih, List.flatMap_cons, List.map_map]
    have hpieces := fst_place l 0 (pieces (spread l))
    conv_rhs => rw [← hpieces, List.map_map]
    rfl

theorem lexemes_append (number : Nat) (ls more : List (List Char)) :
    lexemes number (ls ++ more) = lexemes number ls ++ lexemes (number + ls.length) more := by
  induction ls generalizing number with
  | nil => rfl
  | cons l ls ih =>
    rw [List.cons_append, lexemes, lexemes, ih, List.append_assoc, List.length_cons, Nat.add_assoc,
      Nat.add_comm 1]

theorem lexemes_blank (h : ∀ l ∈ ls, Text.AllBlank l) (number : Nat) : lexemes number ls = [] := by
  have htexts := texts_lexemes number ls
  have hnone : (ls.flatMap fun l => (pieces (spread l)).map String.ofList) = [] := by
    rw [List.flatMap_eq_nil_iff]
    intro l hl
    have hpieces := Lexeme.pieces_gap (h l hl) []
    rw [List.append_nil, spread, pieces] at hpieces
    rw [hpieces, List.map_nil]
  rw [hnone] at htexts
  exact List.map_eq_nil_iff.mp htexts

theorem not_allBlank_heading (h : IsBlock source above b) : ¬ Text.AllBlank b.heading := by
  obtain ⟨before, word, after, hheading, hword⟩ := Section.isHeading_iff.mp h.heading
  have hcolon : ':' ∈ word := hword.sign_mem (by decide) (by decide) (by decide)
  intro hall
  have hblank := hall ':' (by rw [hheading]; simp [hcolon])
  exact absurd hblank (by decide)

/-- **The lexemes of a section are those of all lines of its block.** -/
theorem sectionLexemes_block (h : IsBlock source above b) (size : Nat) :
    sectionLexemes source (b.section size) =
      match labelEnd? b.heading with
      | none => .error (.anywhere .labelUnreadable)
      | some stop => .ok (lexemes b.number (blanked b.heading stop :: b.more)) := by
  have hnewline := Text.newline_notMem_lines source.toList
  rw [h.cut] at hnewline
  obtain ⟨kept, dropped, hmore, hdropped, hcount⟩ := Text.exists_count_trim (not_allBlank_heading h)
    (List.forall_mem_append.mp (List.forall_mem_append.mp hnewline).2).1
  have hphysical : ((Text.lines source.toList).drop (b.number - 1)).take (kept.length + 1) =
      b.heading :: kept := by
    rw [h.number, Nat.add_sub_cancel_left, h.cut, List.drop_left, Block.lines, hmore,
      List.cons_append, List.take_succ_cons, List.append_assoc, List.take_left]
  unfold sectionLexemes Block.section
  dsimp only
  rw [String.toList_ofList, Block.lines, hcount, hphysical]
  dsimp only
  unfold blankLabel?
  cases labelEnd? b.heading with
  | none => rfl
  | some stop =>
    dsimp only
    rw [hmore, ← List.cons_append, lexemes_append, lexemes_blank hdropped, List.append_nil]
    rfl

/-- Whether a usage line stands below the section is a matter of the lines there and of the name of
the program. -/
theorem go_eq_ok {program other : Lexeme} {number : Nat}
    (h : checkAlone.go program number ls = .ok ()) (heq : other.text = program.text) (n : Nat) :
    checkAlone.go other n ls = .ok () := by
  induction ls generalizing number n with
  | nil => rfl
  | cons l ls ih =>
    rw [checkAlone.go] at h ⊢
    rw [heq]
    split at h
    next => exact ih h (n + 1)
    next =>
      split at h
      next => cases h
      next halone => exact if_neg halone

/-- The lines below a block are looked at for a usage line. -/
theorem checkAlone_block (h : IsBlock source above b) (program : Lexeme) : ∃ number,
    checkAlone source (b.section source.toList.length) program =
      checkAlone.go program number (Text.lines (Text.joinLines b.below)) := by
  have hsuffix : Text.joinLines b.below <:+ source.toList := by
    have hlines := Text.joinLines_suffix (above ++ b.lines) b.below
    rwa [List.append_assoc, ← h.cut, Text.joinLines_lines] at hlines
  have hbelow := List.suffix_iff_eq_drop.mp hsuffix
  refine ⟨(source.toList.take (b.section source.toList.length).stop).count '\n' + 1, ?_⟩
  conv_rhs => rw [hbelow]
  rfl

/-- **The usage that a block shows**: its lexemes, the first of them being the program, with no
usage line below it. -/
structure Shows (source : String) (b : Block) (stop : Nat) (program : Lexeme) (rest : List Lexeme) :
    Prop where
  block : ∃ above, IsBlock source above b
  label : labelEnd? b.heading = some stop
  shown : lexemes b.number (blanked b.heading stop :: b.more) = program :: rest
  alone : ∃ number,
    checkAlone.go program number (Text.lines (Text.joinLines b.below)) = .ok ()

/-- **A usage section is read exactly if a block shows it.** -/
theorem read_eq_ok_iff {u : Usage} : read source = .ok u ↔ ∃ b stop rest,
    Shows source b stop u.program rest ∧
      u = ⟨b.section source.toList.length, u.program, cutLines u.program.text rest⟩ := by
  constructor
  · intro h
    obtain ⟨found, hfind, h⟩ := bind_eq_ok.mp h
    obtain ⟨lexemes, hlexemes, h⟩ := bind_eq_ok.mp h
    obtain ⟨above, b, hb, rfl⟩ := find_eq_ok_iff.mp hfind
    rw [sectionLexemes_block hb] at hlexemes
    split at hlexemes
    next => cases hlexemes
    next stop hstop =>
      obtain rfl := Except.ok.inj hlexemes
      split at h
      next => cases h
      next program rest hshown =>
        obtain ⟨_, halone, h⟩ := bind_eq_ok.mp h
        obtain rfl := pure_eq_ok.mp h
        obtain ⟨number, hnumber⟩ := checkAlone_block hb program
        exact ⟨b, stop, rest, ⟨⟨above, hb⟩, hstop, hshown, number, hnumber ▸ halone⟩, rfl⟩
  · rintro ⟨b, stop, rest, ⟨⟨above, hb⟩, hstop, hshown, number, halone⟩, hu⟩
    obtain ⟨n, hn⟩ := checkAlone_block hb u.program
    refine bind_eq_ok.mpr ⟨_, find_eq_ok_iff.mpr ⟨above, b, hb, rfl⟩,
      bind_eq_ok.mpr ⟨u.program :: rest, ?_, bind_eq_ok.mpr ⟨(), ?_, ?_⟩⟩⟩
    · rw [sectionLexemes_block hb, hstop]
      exact congrArg Except.ok hshown
    · rw [hn]
      exact go_eq_ok halone rfl n
    · exact congrArg Except.ok hu.symm

theorem texts_go {first second : List Lexeme} (name : String)
    (h : first.map Lexeme.text = second.map Lexeme.text) :
    (cutLines.go name first).1.map Lexeme.text = (cutLines.go name second).1.map Lexeme.text ∧
      (cutLines.go name first).2.map (List.map Lexeme.text) =
        (cutLines.go name second).2.map (List.map Lexeme.text) := by
  induction first generalizing second with
  | nil =>
    obtain rfl := List.map_eq_nil_iff.mp h.symm
    exact ⟨rfl, rfl⟩
  | cons lex first ih =>
    cases second with
    | nil => exact nomatch h
    | cons other second =>
      rw [List.map_cons, List.map_cons, List.cons.injEq] at h
      obtain ⟨hstart, hlines⟩ := ih h.2
      rw [go_cons, go_cons, h.1]
      split
      next => exact ⟨rfl, by rw [List.map_cons, List.map_cons, hstart, hlines]⟩
      next => exact ⟨by rw [List.map_cons, List.map_cons, hstart, h.1], hlines⟩

/-- **The texts of the usage lines depend on the texts of the lexemes alone.** -/
theorem texts_cutLines {first second : List Lexeme} {name : String}
    (h : first.map Lexeme.text = second.map Lexeme.text) :
    (cutLines name first).map (List.map Lexeme.text) =
      (cutLines name second).map (List.map Lexeme.text) := by
  obtain ⟨hstart, hlines⟩ := texts_go name h
  unfold cutLines
  generalize cutLines.go name first = cut at hstart hlines ⊢
  generalize cutLines.go name second = cut' at hstart hlines ⊢
  obtain ⟨start, lines⟩ := cut
  obtain ⟨start', lines'⟩ := cut'
  dsimp only at hstart hlines
  cases start with
  | nil =>
    obtain rfl := List.map_eq_nil_iff.mp hstart.symm
    cases lines with
    | nil =>
      obtain rfl := List.map_eq_nil_iff.mp hlines.symm
      rfl
    | cons line lines =>
      cases lines' with
      | nil => exact nomatch hlines
      | cons line' lines' => exact hlines
  | cons lex start =>
    cases start' with
    | nil => exact nomatch hstart
    | cons lex' start' => exact congrArg₂ List.cons hstart hlines

end Usage

end Synopsis
