import Synopsis.Proofs.LineScan
import Synopsis.Proofs.Success
import Synopsis.Tool

/-!
# The grammar of the tool

The tool reads its own command line by a help text of its own. This is what the text says.
-/

namespace Synopsis.Tool

set_option maxRecDepth 20000

/-- The options that the tool declares. -/
def options : OptionTable :=
  .ofList
    [{ long := some "--options-first" }, { long := some "--no-help" },
      { long := some "--version", arity := 1 }, { long := some "--debug" },
      { short := some "-h", long := some "--help" }]

/-- The only usage line. -/
def usageLine : Pattern :=
  .required
    [.optional [.shortcut (options.options.map .ofOption)], .leaf (.argument "<file>"),
      .optional [.leaf (.command "--")], .optional [.oneOrMore (.leaf (.argument "<argv>"))]]

def grammar : Grammar where
  source := help
  usage := "Usage:\n  docopt [options] <file> [--] [<argv>...]"
  program := "docopt"
  pattern := .either [usageLine]
  options
  declared := options

def titleLines : List (List Char) :=
  ["Parse a command line against a usage text and print the bindings as JSON.".toList, []]

def usageLines : List (List Char) :=
  ["Usage:".toList, "  docopt [options] <file> [--] [<argv>...]".toList]

def optionLines : List (List Char) :=
  ["Options:".toList,
    "  --options-first  Treat every argument after the first positional one as positional.".toList,
    "  --no-help        Do not handle -h and --help in <argv>.".toList,
    "  --version=<v>    Version text printed for --version in <argv>.".toList,
    "  --debug          Log debug traces to stderr.".toList,
    "  -h --help        Show this screen.".toList]

theorem toList_help :
    help.toList = Text.unlines (titleLines ++ (usageLines ++ ([] :: optionLines))) := by
  unfold help titleLines usageLines optionLines
  repeat rewrite [String.toList_append]
  repeat rewrite [String.toList_ofList]
  rfl

theorem isOther_usage :
    ∀ l ∈ titleLines ++ ([] :: optionLines), Section.isOther "usage:".toList l = true := by
  unfold titleLines optionLines
  repeat rewrite [String.toList_ofList]
  decide

theorem isOther_options :
    ∀ l ∈ titleLines ++ (usageLines ++ [[]]), Section.isOther "options:".toList l = true := by
  unfold titleLines usageLines
  repeat rewrite [String.toList_ofList]
  decide

theorem afterBlock?_usage :
    Section.afterBlock? "usage:".toList
        (Text.unlines usageLines ++ (Text.unlines ([] :: optionLines) ++ [])) =
      some (Text.unlines ([] :: optionLines) ++ []) := by
  unfold usageLines optionLines
  repeat rewrite [String.toList_ofList]
  decide +kernel

theorem afterBlock?_options :
    Section.afterBlock? "options:".toList (Text.unlines optionLines ++ []) = some [] := by
  unfold optionLines
  repeat rewrite [String.toList_ofList]
  decide +kernel

def usageSection : Section where
  text := "Usage:\n  docopt [options] <file> [--] [<argv>...]"
  line := 3
  stop := 125

def optionsSection : Section where
  text := String.ofList (Text.trim (Text.unlines optionLines))
  line := 6
  stop := 428

theorem length_blocks : (Text.unlines titleLines).length = 75 ∧
    (Text.unlines usageLines).length = 50 ∧ (Text.unlines optionLines).length = 302 := by
  unfold titleLines usageLines optionLines
  repeat rewrite [String.toList_ofList]
  decide

theorem trim_usage : String.ofList (Text.trim (Text.unlines usageLines)) = usageSection.text := by
  decide +kernel

theorem no_newline_of_all {name : List Char} (h : name.all (!Text.sameLetter · '\n') = true) :
    ∀ d ∈ name, Text.sameLetter d '\n' = false := fun d hd => by
  simpa using List.all_eq_true.mp h d hd

theorem findAll_usage : Section.findAll "usage:" help = [usageSection] := by
  have hline : ∀ l ∈ titleLines, Section.isOther "usage:".toList l = true := fun l hl =>
    isOther_usage l (List.mem_append_left _ hl)
  have hrest : ∀ l ∈ [] :: optionLines, Section.isOther "usage:".toList l = true := fun l hl =>
    isOther_usage l (List.mem_append_right _ hl)
  have hname := no_newline_of_all (by decide : "usage:".toList.all _ = true)
  have hends : Section.endsLine (Text.unlines usageLines) = true :=
    Section.endsLine_unlines (List.cons_ne_nil _ _)
  obtain ⟨htitle, husage, -⟩ := length_blocks
  rw [Section.findAll, toList_help, Text.unlines_append, Text.unlines_append,
    Section.scan_lines hname hline, ← List.append_nil (Text.unlines ([] :: optionLines)),
    Section.scan_block afterBlock?_usage hends, Section.scan_lines hname hrest,
    Section.scan_nil (by decide), trim_usage, htitle, husage]
  rfl

theorem text_options : help.toList =
    Text.unlines (titleLines ++ (usageLines ++ [[]])) ++ (Text.unlines optionLines ++ []) := by
  rw [toList_help, List.append_nil, ← Text.unlines_append, List.append_assoc, List.append_assoc,
    List.singleton_append]

theorem length_above :
    (Text.unlines (titleLines ++ (usageLines ++ [[]]))).length = 126 := by
  obtain ⟨htitle, husage, -⟩ := length_blocks
  rw [Text.unlines_append, Text.unlines_append, List.length_append, List.length_append, htitle,
    husage]
  rfl

theorem findAll_options : Section.findAll "options:" help = [optionsSection] := by
  have hname := no_newline_of_all (by decide : "options:".toList.all _ = true)
  have hends : Section.endsLine (Text.unlines optionLines) = true :=
    Section.endsLine_unlines (List.cons_ne_nil _ _)
  obtain ⟨-, -, hlength⟩ := length_blocks
  rw [Section.findAll, text_options, Section.scan_lines hname isOther_options,
    Section.scan_block afterBlock?_options hends, Section.scan_nil (by decide), length_above,
    hlength]
  rfl

theorem lines_options :
    Text.lines (Text.after [':'] (Text.trim (Text.unlines optionLines))) =
      [] :: optionLines.tail := by
  unfold optionLines
  repeat rewrite [String.toList_ofList]
  rfl

theorem group_options : (Description.group 6 ([] :: optionLines.tail)).2 =
    [(7, [optionLines[1]]), (8, [optionLines[2]]), (9, [optionLines[3]]), (10, [optionLines[4]]),
      (11, [optionLines[5]])] := by
  unfold optionLines
  repeat rewrite [String.toList_ofList]
  rfl

theorem entries_options : Description.entries optionsSection =
    [(7, optionLines[1]), (8, optionLines[2]), (9, optionLines[3]), (10, optionLines[4]),
      (11, optionLines[5])] := by
  rw [Description.entries, optionsSection, String.toList_ofList, lines_options, group_options]
  rfl

theorem read_entries :
    Description.read optionLines[1] (some 7) = .ok { long := some "--options-first" } ∧
    Description.read optionLines[2] (some 8) = .ok { long := some "--no-help" } ∧
    Description.read optionLines[3] (some 9) = .ok { long := some "--version", arity := 1 } ∧
    Description.read optionLines[4] (some 10) = .ok { long := some "--debug" } ∧
    Description.read optionLines[5] (some 11) =
      .ok { short := some "-h", long := some "--help" } := by
  unfold optionLines
  repeat rewrite [String.toList_ofList]
  exact ⟨rfl, rfl, rfl, rfl, rfl⟩

theorem read_options : OptionTable.read help = .ok options := by
  obtain ⟨h₁, h₂, h₃, h₄, h₅⟩ := read_entries
  rw [OptionTable.read, findAll_options, List.flatMap_singleton, entries_options]
  refine bind_eq_ok.mpr ⟨_, ?_, rfl⟩
  simp only [List.mapM_cons, List.mapM_nil]
  refine bind_eq_ok.mpr ⟨_, h₁, bind_eq_ok.mpr ⟨_, ?_, rfl⟩⟩
  refine bind_eq_ok.mpr ⟨_, h₂, bind_eq_ok.mpr ⟨_, ?_, rfl⟩⟩
  refine bind_eq_ok.mpr ⟨_, h₃, bind_eq_ok.mpr ⟨_, ?_, rfl⟩⟩
  refine bind_eq_ok.mpr ⟨_, h₄, bind_eq_ok.mpr ⟨_, ?_, rfl⟩⟩
  exact bind_eq_ok.mpr ⟨_, h₅, rfl⟩

def program : Lexeme := ⟨"docopt", 4, 2⟩

def lexemes : List Lexeme :=
  [⟨"[", 4, 9⟩, ⟨"options", 4, 10⟩, ⟨"]", 4, 17⟩, ⟨"<file>", 4, 19⟩, ⟨"[", 4, 26⟩, ⟨"--", 4, 27⟩,
    ⟨"]", 4, 29⟩, ⟨"[", 4, 31⟩, ⟨"<argv>", 4, 32⟩, ⟨"...", 4, 38⟩, ⟨"]", 4, 41⟩]

theorem no_newline : ∀ l ∈ titleLines ++ (usageLines ++ ([] :: optionLines)), '\n' ∉ l := by
  unfold titleLines usageLines optionLines
  repeat rewrite [String.toList_ofList]
  decide

theorem lines_help :
    Text.lines help.toList = titleLines ++ (usageLines ++ ([] :: optionLines)) ++ [[]] := by
  rw [toList_help, ← List.append_nil (Text.unlines _), Text.lines_unlines no_newline]
  rfl

theorem count_usage : usageSection.text.toList.count '\n' = 1 := by
  show "Usage:\n  docopt [options] <file> [--] [<argv>...]".toList.count '\n' = 1
  rewrite [String.toList_ofList]
  decide

theorem sectionLexemes_help :
    Usage.sectionLexemes help usageSection = .ok (program :: lexemes) := by
  have hlines : ((titleLines ++ (usageLines ++ ([] :: optionLines)) ++ [[]]).drop 2).take 2 =
      usageLines := rfl
  have hfirst : usageSection.line - 1 = 2 := rfl
  rw [Usage.sectionLexemes, lines_help, count_usage, hfirst, hlines]
  decide +kernel

/-- Below the usage section the next line that is not blank is not indented. -/
theorem go_options (number : Nat) (more : List (List Char)) :
    Usage.checkAlone.go program number ([] :: optionLines ++ more) = .ok () := by
  unfold optionLines
  repeat rewrite [String.toList_ofList]
  rfl

theorem checkAlone_help : Usage.checkAlone help usageSection program = .ok () := by
  have htext : help.toList =
      Text.unlines (titleLines ++ usageLines) ++ Text.unlines ([] :: optionLines) := by
    rw [toList_help, ← List.append_assoc, Text.unlines_append]
  have hlength : (Text.unlines (titleLines ++ usageLines)).length = usageSection.stop := by
    obtain ⟨htitle, husage, -⟩ := length_blocks
    rw [Text.unlines_append, List.length_append, htitle, husage]
    rfl
  have hnewline : ∀ l ∈ [] :: optionLines, '\n' ∉ l := fun l hl =>
    no_newline l (List.mem_append_right _ (List.mem_append_right _ hl))
  have hlines : Text.lines (Text.unlines ([] :: optionLines)) = [] :: optionLines ++ [[]] := by
    rw [← List.append_nil (Text.unlines _), Text.lines_unlines hnewline]
    rfl
  rw [Usage.checkAlone, htext, List.drop_left' hlength, hlines]
  exact go_options _ _

theorem readLine_help :
    Pattern.readLine options options lexemes = .ok (usageLine, options) := by
  cbv

theorem read_usage :
    Usage.read help = .ok ⟨usageSection, program, [lexemes]⟩ := by
  have hfind : Usage.find help = .ok usageSection := by
    rw [Usage.find, Usage.label, findAll_usage]
  have hcut : Usage.cutLines program.text lexemes = [lexemes] := by decide
  refine bind_eq_ok.mpr ⟨_, hfind, bind_eq_ok.mpr ⟨_, sectionLexemes_help, ?_⟩⟩
  dsimp only
  rw [checkAlone_help, hcut]
  rfl

/-- **The grammar of the tool** is what its help text says. -/
theorem ofHelp_help : Grammar.ofHelp help = .ok grammar := by
  rw [Grammar.ofHelp, Compilation.ofHelp, read_usage, read_options]
  dsimp only
  rw [readLines, readLine_help]
  rfl

end Synopsis.Tool
