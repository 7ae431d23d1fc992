import Synopsis.Proofs.SameLetters
import Synopsis.Proofs.Trimming

/-!
# Sections line by line

The sections of a name are blocks of lines: a line that holds the name, with all the indented lines
right below it. `Blocks` goes through the lines of a text from top to bottom and puts each of them
into a block or passes it over; the search for sections, which reads the text character by
character, finds exactly these blocks. `IsLineScan` says the same without going through the lines.
-/

namespace Synopsis

namespace Section

open Text (Holds joinLines unlines takeLine)

variable {name l s : List Char} {line offset number : Nat} {ls more below : List (List Char)}

theorem isHeading_iff : isHeading name l = true ↔ Holds name l := by
  induction l with
  | nil =>
    rw [isHeading, Option.isSome_iff_exists]
    constructor
    · rintro ⟨rest, hrest⟩
      exact Text.holds_of_start hrest
    · rintro ⟨before, word, after, hl, hword⟩
      obtain ⟨-, hl⟩ := List.append_eq_nil_iff.mp hl.symm
      exact ⟨after, Text.afterLetters?_eq_some_iff.mpr ⟨word, hl.symm, hword⟩⟩
  | cons c l ih =>
    rw [isHeading, Bool.or_eq_true, Option.isSome_iff_exists, ih]
    constructor
    · rintro (⟨rest, hrest⟩ | h)
      · exact Text.holds_of_start hrest
      · exact h.cons c
    · rintro ⟨before, word, after, hl, hword⟩
      cases before with
      | nil => exact .inl ⟨after, Text.afterLetters?_eq_some_iff.mpr ⟨word, hl, hword⟩⟩
      | cons d before => exact .inr ⟨before, word, after, (List.cons.inj hl).2, hword⟩

/-- A section that starts here is found, and the search goes on behind it. -/
theorem scan_found (hname : name ≠ []) {block rest : List Char} (hne : block ≠ [])
    (hb : afterBlock? name (block ++ rest) = some rest) :
    scan name line offset (block ++ rest) =
      ⟨String.ofList (Text.trim block), line, offset + block.length⟩ ::
        scan name (line + block.count '\n') (offset + block.length) rest := by
  have htake : (block ++ rest).take ((block ++ rest).length - rest.length) = block := by simp
  rw [scan, dif_neg (List.append_ne_nil_of_left_ne_nil hne rest)]
  split
  next rest' hrest =>
    obtain rfl := Option.some.inj (hb.symm.trans hrest)
    rw [htake]
    dsimp only
    split
    next hend =>
      -- at the end of the text the search ends with or without a last newline
      rw [Bool.and_eq_true, List.isEmpty_iff] at hend
      rw [hend.1, scan_nil hname]
    next => rfl
  next hrest => exact nomatch hb.symm.trans hrest

/-- A line that no section starts with is passed over. -/
theorem scan_missed (hname : name ≠ []) (hne : s ≠ []) (hb : afterBlock? name s = none) :
    scan name line offset s =
      scan name (line + 1) (offset + (takeLine s).1.length) (takeLine s).2 := by
  rw [scan, dif_neg hne]
  split
  next rest hrest => exact nomatch hb.symm.trans hrest
  next =>
    dsimp only
    split
    next hend =>
      rw [Bool.and_eq_true, List.isEmpty_iff] at hend
      rw [hend.1, scan_nil hname]
    next => rfl

/-- Behind a heading the text goes on with the next line. -/
theorem afterHeading?_heading (hn : '\n' ∉ name) (hl : '\n' ∉ l) (h : isHeading name l = true)
    (s : List Char) : afterHeading? name (l ++ s) = some (takeLine s).2 := by
  -- wherever the name is found, it ends on the heading line
  have hfound : ∀ {l rest}, '\n' ∉ l → Text.afterLetters? name (l ++ s) = some rest →
      (takeLine rest).2 = (takeLine s).2 := by
    intro l rest hl hrest
    obtain ⟨own, heq, hown⟩ := Text.afterLetters?_eq_some_iff.mp hrest
    rw [← Text.takeLine_append_of_notMem (hown.newline_notMem hn), ← heq,
      Text.takeLine_append_of_notMem hl]
  induction l with
  | nil =>
    obtain ⟨rest, hrest⟩ := Option.isSome_iff_exists.mp h
    obtain ⟨own, hnil, hown⟩ := Text.afterLetters?_eq_some_iff.mp hrest
    rw [(List.append_eq_nil_iff.mp hnil.symm).1] at hown
    cases hown
    cases s <;> rfl
  | cons c l ih =>
    have hcl := hl
    rw [List.mem_cons, not_or] at hl
    rw [List.cons_append, afterHeading?]
    split
    next rest hrest => exact congrArg some (hfound hcl hrest)
    next hnone =>
      rw [if_neg (Ne.symm hl.1)]
      refine ih hl.2 ?_
      rw [isHeading, Bool.or_eq_true] at h
      refine h.resolve_left fun hsome => ?_
      obtain ⟨rest, hrest⟩ := Option.isSome_iff_exists.mp hsome
      exact absurd (hnone.symm.trans (Text.afterLetters?_append hrest s))
        (Option.some_ne_none _).symm

theorem afterHeading?_alone (hl : isHeading name l = false) : afterHeading? name l = none := by
  induction l with
  | nil =>
    rw [isHeading, Option.isSome_eq_false_iff, Option.isNone_iff_eq_none] at hl
    rw [afterHeading?, hl]
    rfl
  | cons c l ih =>
    rw [isHeading, Bool.or_eq_false_iff, Option.isSome_eq_false_iff,
      Option.isNone_iff_eq_none] at hl
    rw [afterHeading?, hl.1]
    dsimp only
    rw [ih hl.2, ite_self]

/-- A line starts a section exactly if it is a heading. -/
theorem afterHeading?_joinLines (hn : '\n' ∉ name) (hl : '\n' ∉ l) (ls : List (List Char)) :
    afterHeading? name (joinLines (l :: ls)) =
      if isHeading name l then some (joinLines ls) else none := by
  by_cases h : isHeading name l = true
  · rw [if_pos h]
    cases ls with
    | nil =>
      have hheading := afterHeading?_heading hn hl h []
      rwa [List.append_nil] at hheading
    | cons k ls => exact afterHeading?_heading hn hl h ('\n' :: joinLines (k :: ls))
  · rw [if_neg h]
    rw [Bool.not_eq_true] at h
    cases ls with
    | nil => exact afterHeading?_alone h
    | cons k ls =>
      have hd : ∀ d ∈ name, Text.sameLetter d '\n' = false := fun d hd =>
        Text.sameLetter_newline fun hnewline => hn (hnewline ▸ hd)
      exact afterHeading?_line hd h _

theorem isIndented_joinLines (l : List Char) (ls : List (List Char)) :
    isIndented (joinLines (l :: ls)) = isIndented l := by
  cases ls with
  | nil => rfl
  | cons k ls =>
    cases l with
    | nil => rfl
    | cons c l =>
      rw [Text.joinLines_cons (List.cons_ne_nil k ls), List.cons_append]
      unfold isIndented
      split <;> rename_i heq <;> simp_all

/-- The indented lines at the start of a text end with the first line that is not. -/
theorem afterIndented_joinLines (hnewline : ∀ k ∈ more, '\n' ∉ k)
    (hmore : ∀ k ∈ more, isIndented k = true) (hbelow : ∀ k ∈ below.head?, isIndented k = false) :
    afterIndented (joinLines (more ++ below)) = joinLines below := by
  induction more with
  | nil =>
    rw [List.nil_append, afterIndented, dif_neg]
    cases below with
    | nil => exact Bool.false_ne_true
    | cons k below =>
      rw [isIndented_joinLines, hbelow k rfl]
      exact Bool.false_ne_true
  | cons k more ih =>
    obtain ⟨hk, hmore⟩ := List.forall_mem_cons.mp hmore
    obtain ⟨hl, hnewline⟩ := List.forall_mem_cons.mp hnewline
    rw [List.cons_append, afterIndented, dif_pos (by rw [isIndented_joinLines, hk])]
    dsimp only
    rw [Text.takeLine_joinLines hl, ih hnewline hmore]

/-- A line that holds a name, the indented lines right below it and the lines below these. -/
structure Block where
  /-- The number of the first line. -/
  number : Nat
  heading : List Char
  more : List (List Char)
  below : List (List Char)

/-- The lines of the block. -/
def Block.lines (b : Block) : List (List Char) :=
  b.heading :: b.more

/-- The section that the block is, in a text of the given length. -/
def Block.section (size : Nat) (b : Block) : Section :=
  ⟨String.ofList (Text.trim (joinLines b.lines)), b.number, size - (joinLines b.below).length⟩

/-- **The blocks that a name heads**, line by line, the first line having the given number. -/
inductive Blocks (name : List Char) : Nat → List (List Char) → List Block → Prop
  | nil {number : Nat} : Blocks name number [] []
  | other {number : Nat} {l ls found} : isHeading name l = false →
      Blocks name (number + 1) ls found → Blocks name number (l :: ls) found
  | block {number : Nat} {l more below found} : isHeading name l = true →
      (∀ k ∈ more, isIndented k = true) → (∀ k ∈ below.head?, isIndented k = false) →
      Blocks name (number + 1 + more.length) below found →
      Blocks name number (l :: (more ++ below)) (⟨number, l, more, below⟩ :: found)

variable {found : List Block}

theorem exists_blocks (name : List Char) (number : Nat) (ls : List (List Char)) :
    ∃ found, Blocks name number ls found := by
  induction hn : ls.length using Nat.strongRecOn generalizing number ls with
  | _ n ih =>
    subst hn
    cases ls with
    | nil => exact ⟨[], .nil⟩
    | cons l ls =>
      cases hl : isHeading name l with
      | false =>
        obtain ⟨found, hfound⟩ := ih ls.length (Nat.lt_succ_self _) (number + 1) ls rfl
        exact ⟨found, .other hl hfound⟩
      | true =>
        have hlt : (ls.dropWhile isIndented).length < (l :: ls).length :=
          Nat.lt_succ_of_le (List.dropWhile_sublist isIndented).length_le
        obtain ⟨found, hfound⟩ :=
          ih _ hlt (number + 1 + (ls.takeWhile isIndented).length) (ls.dropWhile isIndented) rfl
        have hmore : ∀ k ∈ ls.takeWhile isIndented, isIndented k = true :=
          fun k hk => List.all_eq_true.mp List.all_takeWhile k hk
        have hbelow : ∀ k ∈ (ls.dropWhile isIndented).head?, isIndented k = false := by
          intro k hk
          have hnot := List.head?_dropWhile_not isIndented ls
          rwa [Option.mem_def.mp hk] at hnot
        have hblocks := Blocks.block hl hmore hbelow hfound
        rw [List.takeWhile_append_dropWhile] at hblocks
        exact ⟨_, hblocks⟩

theorem isHeading_nil (hname : name ≠ []) : isHeading name [] = false := by
  cases name with
  | nil => exact absurd rfl hname
  | cons d name => rfl

theorem joinLines_eq_nil (h : joinLines (l :: ls) = []) : l = [] ∧ ls = [] := by
  cases ls with
  | nil => exact ⟨h, rfl⟩
  | cons k ls => exact absurd (List.append_eq_nil_iff.mp h).2 (List.cons_ne_nil _ _)

/-- A block of lines as it stands in front of the lines below it. -/
theorem exists_block_text (hl : '\n' ∉ l) (hmore : ∀ k ∈ more, '\n' ∉ k)
    (below : List (List Char)) : ∃ block, joinLines (l :: (more ++ below)) =
        block ++ joinLines below ∧ Text.trim block = Text.trim (joinLines (l :: more)) ∧
      (block = unlines (l :: more) ∧ block.count '\n' = more.length + 1 ∨
        block = joinLines (l :: more) ∧ below = []) := by
  by_cases hbelow : below = []
  · subst hbelow
    rw [List.append_nil]
    exact ⟨_, (List.append_nil _).symm, rfl, .inr ⟨rfl, rfl⟩⟩
  · refine ⟨unlines (l :: more), ?_, ?_, .inl ⟨rfl, ?_⟩⟩
    · rw [← List.cons_append, Text.joinLines_append hbelow]
    · rw [Text.unlines_eq_joinLines (List.cons_ne_nil l more)]
      exact Text.trim_append_of_blank (List.forall_mem_singleton.mpr Text.isBlank_newline)
    · exact Text.count_unlines (List.forall_mem_cons.mpr ⟨hl, hmore⟩)

/-- **The search finds the blocks.** -/
theorem scan_eq_blocks (hname : name ≠ []) (hn : '\n' ∉ name) (h : Blocks name number ls found)
    (hls : ∀ l ∈ ls, '\n' ∉ l) (offset : Nat) : scan name number offset (joinLines ls) =
      found.map (Block.section (offset + (joinLines ls).length)) := by
  induction h generalizing offset with
  | nil => exact scan_nil hname
  | @other number l ls found hl hrest ih =>
    obtain ⟨hnewline, hls⟩ := List.forall_mem_cons.mp hls
    by_cases hs : joinLines (l :: ls) = []
    · obtain ⟨-, rfl⟩ := joinLines_eq_nil hs
      cases hrest
      rw [hs, scan_nil hname]
      rfl
    · have hmissed : afterBlock? name (joinLines (l :: ls)) = none := by
        rw [afterBlock?, afterHeading?_joinLines hn hnewline, hl]
        rfl
      have hlength := congrArg List.length (Text.takeLine_append (joinLines (l :: ls)))
      rw [List.length_append, Text.takeLine_joinLines hnewline] at hlength
      rw [scan_missed hname hs hmissed, Text.takeLine_joinLines hnewline, ih hls, ← hlength,
        Nat.add_assoc]
  | @block number l more below found hl hmore hbelow hrest ih =>
    obtain ⟨hnewline, hls⟩ := List.forall_mem_cons.mp hls
    obtain ⟨hmoreline, hbelowline⟩ := List.forall_mem_append.mp hls
    obtain ⟨block, hsplit, htrim, hblock⟩ := exists_block_text hnewline hmoreline below
    have hne : block ≠ [] := by
      have hjoin : joinLines (l :: more) ≠ [] := fun h => by
        rw [(joinLines_eq_nil h).1, isHeading_nil hname] at hl
        cases hl
      rcases hblock with ⟨rfl, -⟩ | ⟨rfl, -⟩
      · rw [Text.unlines_eq_joinLines (List.cons_ne_nil l more)]
        exact List.append_ne_nil_of_left_ne_nil hjoin _
      · exact hjoin
    have hafter : afterBlock? name (block ++ joinLines below) = some (joinLines below) := by
      rw [← hsplit, afterBlock?, afterHeading?_joinLines hn hnewline, if_pos hl, Option.map_some,
        afterIndented_joinLines hmoreline hmore hbelow]
    rw [hsplit, scan_found hname hne hafter, List.map_cons, Block.section, Block.lines, htrim,
      List.length_append, ← Nat.add_assoc, Nat.add_sub_cancel]
    congr 1
    rcases hblock with ⟨-, hcount⟩ | ⟨-, rfl⟩
    · rw [hcount, Nat.add_comm more.length, ← Nat.add_assoc]
      exact ih hbelowline _
    · cases hrest
      exact scan_nil hname

theorem findAll_eq_blocks {name : String} (hname : name.toList ≠ []) (hn : '\n' ∉ name.toList)
    {source : String} (h : Blocks name.toList 1 (Text.lines source.toList) found) :
    findAll name source = found.map (Block.section source.toList.length) := by
  have hscan := scan_eq_blocks hname hn h (Text.newline_notMem_lines source.toList) 0
  rwa [Text.joinLines_lines, Nat.zero_add] at hscan

namespace Blocks

theorem number_le (h : Blocks name number ls found) : ∀ b ∈ found, number ≤ b.number := by
  induction h with
  | nil => exact nofun
  | other _ _ ih => exact fun b hb => Nat.le_of_succ_le (ih b hb)
  | block _ _ _ _ ih =>
    refine List.forall_mem_cons.mpr ⟨Nat.le_refl _, fun b hb => ?_⟩
    have hle := ih b hb
    omega

theorem apart (h : Blocks name number ls found) :
    found.Pairwise fun b c => b.number + b.lines.length ≤ c.number := by
  induction h with
  | nil => exact .nil
  | other _ _ ih => exact ih
  | block _ _ _ hrest ih =>
    refine List.pairwise_cons.mpr ⟨fun c hc => ?_, ih⟩
    have hle := hrest.number_le c hc
    rw [Block.lines, List.length_cons]
    dsimp only
    omega

/-- A line heads a block exactly if it holds the name and lies in no block above it. -/
theorem heads (h : Blocks name number ls found) {i : Nat} (hi : ls[i]? = some l) :
    (∃ b ∈ found, b.number = number + i) ↔ isHeading name l = true ∧
      ∀ b ∈ found, b.number < number + i → b.number + b.lines.length ≤ number + i := by
  induction h generalizing i with
  | nil => exact nomatch hi
  | @other number k ls found hk hrest ih =>
    cases i with
    | zero =>
      obtain rfl := Option.some.inj hi
      refine iff_of_false ?_ fun h => nomatch hk.symm.trans h.1
      rintro ⟨b, hb, hnumber⟩
      have hle := hrest.number_le b hb
      omega
    | succ i =>
      have hshift : number + (i + 1) = number + 1 + i := by omega
      rw [hshift]
      exact ih hi
  | @block number k more below found hk hmore hbelow hrest ih =>
    have hle := hrest.number_le
    have hsize : (Block.mk number k more below).lines.length = more.length + 1 := rfl
    rw [List.exists_mem_cons_iff, List.forall_mem_cons, hsize]
    dsimp only
    by_cases hlt : i < more.length + 1
    · cases i with
      | zero =>
        obtain rfl := Option.some.inj hi
        refine iff_of_true (.inl rfl) ⟨hk, fun hlt => absurd hlt (Nat.lt_irrefl _), fun b hb => ?_⟩
        have hb := hle b hb
        omega
      | succ i =>
        -- an indented line of the block itself
        refine iff_of_false ?_ ?_
        · rintro (hnumber | ⟨b, hb, hnumber⟩)
          · omega
          · have hb := hle b hb
            omega
        · rintro ⟨-, hself, -⟩
          have hself := hself (by omega)
          omega
    · obtain ⟨j, rfl⟩ : ∃ j, i = more.length + 1 + j := ⟨i - (more.length + 1), by omega⟩
      have hshift : number + (more.length + 1 + j) = number + 1 + more.length + j := by omega
      have hj : below[j]? = some l := by
        rw [← hi, ← List.cons_append, List.getElem?_append_right (by simp)]
        simp
      rw [hshift, ih hj, or_iff_right (by omega), and_iff_right (fun _ => by omega)]

/-- Where a block stands among the lines. -/
theorem stands (h : Blocks name number ls found) : ∀ b ∈ found, ∃ before,
    ls = before ++ (b.lines ++ b.below) ∧ b.number = number + before.length ∧
      isHeading name b.heading = true ∧ (∀ k ∈ b.more, isIndented k = true) ∧
      ∀ k ∈ b.below.head?, isIndented k = false := by
  induction h with
  | nil => exact nofun
  | @other number l ls found _ _ ih =>
    intro b hb
    obtain ⟨before, rfl, hnumber, hinside⟩ := ih b hb
    refine ⟨l :: before, rfl, ?_, hinside⟩
    rw [hnumber, List.length_cons]
    omega
  | @block number l more below found hl hmore hbelow _ ih =>
    refine List.forall_mem_cons.mpr ⟨⟨[], rfl, rfl, hl, hmore, hbelow⟩, fun b hb => ?_⟩
    obtain ⟨before, rfl, hnumber, hinside⟩ := ih b hb
    refine ⟨l :: (more ++ before), ?_, ?_, hinside⟩
    · rw [List.cons_append, List.append_assoc]
    · rw [hnumber, List.length_cons, List.length_append]
      omega

end Blocks

/-- The line at a place with all the indented lines right below it. -/
def blockAt (ls : List (List Char)) (i : Nat) : List (List Char) :=
  match ls.drop i with
  | [] => []
  | l :: rest => l :: rest.takeWhile isIndented

/-- The block of lines that a section starts. -/
def blockOf (source : String) (p : Section) : List (List Char) :=
  blockAt (Text.lines source.toList) (p.line - 1)

/-- **Where a section stands**: its block, up to the newline that ends it unless the text ends
first, between the lines above it and a text that starts with no indented line. -/
structure StandsIn (source : String) (p : Section) (above block below : List Char) : Prop where
  cut : source.toList = above ++ (block ++ below)
  lines_above : above = unlines ((Text.lines source.toList).take (p.line - 1))
  line : p.line = above.count '\n' + 1
  lines_block : block = unlines (blockOf source p) ∨
    block = joinLines (blockOf source p) ∧ below = []
  stop : p.stop = (above ++ block).length
  trimmed : p.text = String.ofList (Text.trim block)
  behind : isIndented below = false

/-- **A line scan for a name**: one section for each line that holds the name and lies in no block
above it, from top to bottom. -/
structure IsLineScan (name source : String) (found : List Section) : Prop where
  heads : ∀ i l, (Text.lines source.toList)[i]? = some l →
    ((∃ p ∈ found, p.line = i + 1) ↔ Holds name.toList l ∧
      ∀ p ∈ found, p.line < i + 1 → p.line + (blockOf source p).length ≤ i + 1)
  apart : found.Pairwise fun p q => p.line + (blockOf source p).length ≤ q.line
  stands : ∀ p ∈ found, ∃ above block below, StandsIn source p above block below

theorem blockAt_append {heading : List Char} {before : List (List Char)}
    (hmore : ∀ k ∈ more, isIndented k = true) (hbelow : ∀ k ∈ below.head?, isIndented k = false) :
    blockAt (before ++ (heading :: more ++ below)) before.length = heading :: more := by
  have hnone : below.takeWhile isIndented = [] := by
    cases below with
    | nil => rfl
    | cons k below => rw [List.takeWhile_cons_of_neg (Bool.eq_false_iff.mp (hbelow k rfl))]
  rw [blockAt, List.drop_left, List.cons_append]
  dsimp only
  rw [List.takeWhile_append_of_pos hmore, hnone, List.append_nil]

theorem blockOf_section {source : String} (size : Nat)
    (h : Blocks name 1 (Text.lines source.toList) found) {b : Block} (hb : b ∈ found) :
    blockOf source (b.section size) = b.lines := by
  obtain ⟨before, hlines, hnumber, -, hmore, hbelow⟩ := h.stands b hb
  rw [blockOf, hlines, Block.section, hnumber, Nat.add_sub_cancel_left]
  exact blockAt_append hmore hbelow

theorem standsIn_of_blocks {source : String}
    (h : Blocks name 1 (Text.lines source.toList) found) {b : Block} (hb : b ∈ found) :
    ∃ above block below, StandsIn source (b.section source.toList.length) above block below := by
  have hblock := blockOf_section source.toList.length h hb
  obtain ⟨before, hlines, hnumber, -, -, hbelow⟩ := h.stands b hb
  have hnewline := Text.newline_notMem_lines source.toList
  rw [hlines] at hnewline
  obtain ⟨hbefore, hnewline⟩ := List.forall_mem_append.mp hnewline
  obtain ⟨hnewline, -⟩ := List.forall_mem_append.mp hnewline
  obtain ⟨hheading, hmore⟩ := List.forall_mem_cons.mp hnewline
  obtain ⟨block, hsplit, htrim, hends⟩ := exists_block_text hheading hmore b.below
  have htake : (Text.lines source.toList).take (b.number - 1) = before := by
    rw [hlines, hnumber, Nat.add_sub_cancel_left, List.take_left]
  have hcut : source.toList = unlines before ++ (block ++ joinLines b.below) := by
    rw [← hsplit, ← Text.joinLines_append (List.cons_ne_nil _ _),
      ← Text.joinLines_lines source.toList, hlines]
    rfl
  refine ⟨unlines before, block, joinLines b.below, hcut, ?_, ?_, ?_, ?_, ?_, ?_⟩
  · exact congrArg unlines htake.symm
  · rw [Text.count_unlines hbefore, Nat.add_comm]
    exact hnumber
  · rw [hblock]
    exact hends.imp And.left (And.imp_right fun hnil => congrArg joinLines hnil)
  · rw [Block.section, hcut]
    dsimp only
    simp only [List.length_append]
    omega
  · exact congrArg String.ofList htrim.symm
  · cases hnil : b.below with
    | nil => rfl
    | cons k below =>
      rw [isIndented_joinLines]
      exact hbelow k (by rw [hnil]; rfl)

/-- The lines that a section is made of. -/
theorem exists_lines_of_mem {name source : String} (hname : name.toList ≠ [])
    (hn : '\n' ∉ name.toList) {p : Section} (hp : p ∈ findAll name source) :
    ∃ before heading more below,
      Text.lines source.toList = before ++ (heading :: more ++ below) ∧
      p.line = before.length + 1 ∧
      p.text = String.ofList (Text.trim (joinLines (heading :: more))) ∧
      Holds name.toList heading := by
  obtain ⟨found, hfound⟩ := exists_blocks name.toList 1 (Text.lines source.toList)
  rw [findAll_eq_blocks hname hn hfound] at hp
  obtain ⟨b, hb, rfl⟩ := List.mem_map.mp hp
  obtain ⟨before, hlines, hnumber, hheading, -, -⟩ := hfound.stands b hb
  refine ⟨before, b.heading, b.more, b.below, hlines, ?_, rfl, isHeading_iff.mp hheading⟩
  exact hnumber.trans (Nat.add_comm ..)

/-- **The search for sections is a line scan.** -/
theorem findAll_isLineScan (name source : String) (hname : name ≠ "") (hn : '\n' ∉ name.toList) :
    IsLineScan name source (findAll name source) := by
  have hne : name.toList ≠ [] := fun h => hname (String.toList_eq_nil_iff.mp h)
  obtain ⟨found, hfound⟩ := exists_blocks name.toList 1 (Text.lines source.toList)
  rw [findAll_eq_blocks hne hn hfound]
  refine ⟨fun i l hi => ?_, ?_, ?_⟩
  · have hheads := hfound.heads hi
    rw [isHeading_iff, Nat.add_comm] at hheads
    simp only [List.mem_map, exists_exists_and_eq_and, forall_exists_index, and_imp,
      forall_apply_eq_imp_iff₂]
    refine hheads.trans (and_congr_right fun _ => forall₂_congr fun b hb => ?_)
    rw [blockOf_section _ hfound hb]
    rfl
  · rw [List.pairwise_map]
    refine hfound.apart.imp_of_mem fun {b c} hb _ hle => ?_
    rw [blockOf_section _ hfound hb]
    exact hle
  · rw [List.forall_mem_map]
    exact fun b hb => standsIn_of_blocks hfound hb

/-- Two sections, one with an indented heading; the name on an indented line below it heads none. -/
theorem findAll_isLineScan_two :
    "options:" ≠ "" ∧ '\n' ∉ "options:".toList ∧
    IsLineScan "options:" "Options:\n  -a  A.\n\n other OPTIONS: \n\t-b options:\n"
      [⟨"Options:\n  -a  A.", 1, 18⟩, ⟨"other OPTIONS: \n\t-b options:", 4, 49⟩] := by
  have hfound : findAll "options:" "Options:\n  -a  A.\n\n other OPTIONS: \n\t-b options:\n" =
      [⟨"Options:\n  -a  A.", 1, 18⟩, ⟨"other OPTIONS: \n\t-b options:", 4, 49⟩] := by
    decide +kernel
  have hscan := findAll_isLineScan "options:"
    "Options:\n  -a  A.\n\n other OPTIONS: \n\t-b options:\n" (by decide) (by decide)
  rw [hfound] at hscan
  exact ⟨by decide, by decide, hscan⟩

end Section

end Synopsis
