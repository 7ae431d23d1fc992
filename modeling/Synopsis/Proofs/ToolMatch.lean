import Synopsis.Proofs.Preference
import Synopsis.Proofs.Reading
import Synopsis.Proofs.Safety
import Synopsis.Proofs.ToolGrammar

/-!
# The command line of the tool

The tool is called with settings, a file and the command line to read, which may stand behind the
marker. From the file on every argument is a plain word, so the usage line takes the settings by
their options, the file, a marker if there is one, and all words that are left.
-/

namespace Synopsis.Tool

/-- A setting on the command line of the tool. -/
inductive Setting where
  | optionsFirst
  | noHelp
  | version (text : String)
  deriving DecidableEq

namespace Setting

/-- The option that the tool declares for the setting. -/
def option : Setting → OptionDef
  | optionsFirst => { long := some "--options-first" }
  | noHelp => { long := some "--no-help" }
  | version _ => { long := some "--version", arity := 1 }

def name (s : Setting) : String :=
  s.option.name

@[simp] theorem name_optionsFirst : name optionsFirst = "--options-first" := rfl

@[simp] theorem name_noHelp : name noHelp = "--no-help" := rfl

@[simp] theorem name_version (text : String) : name (version text) = "--version" := rfl

/-- The value that the option is given with. -/
def value? : Setting → Option String
  | version text => some text
  | _ => none

/-- The argument for the setting. -/
def spelled : Setting → String
  | optionsFirst => "--options-first"
  | noHelp => "--no-help"
  | version text => "--version=" ++ text

/-- What the argument is read into. -/
def token (s : Setting) : Token :=
  .option s.option s.spelled s.value?

end Setting

/-- The configuration that settings describe. -/
def configOf (settings : List Setting) : Config where
  optionsFirst := some (settings.contains .optionsFirst)
  autoHelp := some (!settings.contains .noHelp)
  version := some (settings.findSome? Setting.value?)
  raiseException := some false

/-- **The words after the file hand on a command line**: all of them, or those behind the marker. A
command line that starts with the marker stands behind another one. -/
inductive HandsOn (ys : List String) : List String → Prop
  | marked : HandsOn ys ("--" :: ys)
  | plain : ys.head? ≠ some "--" → HandsOn ys ys

/-- The tokens of settings and words. -/
def tokensOf (opts : List Setting) (ws : List String) : List Token :=
  opts.map Setting.token ++ ws.map .plain

/-- The settings under which the tool reads its own command line. -/
def ownSettings : Settings where
  optionsFirst := true
  autoHelp := true
  version := none
  raiseException := false
  fuzzyMatch := false
  fuzzyThreshold := 0.6
  helpNames := Builtin.help.defaultNames
  versionNames := Builtin.version.defaultNames
  extra := []

/-- The interface by which the tool reads its own command line. -/
def interface : Interface where
  grammar
  settings := ownSettings
  actions := grammar.pattern.actions
  options

theorem merge_ownConfig : ownConfig.merge {} = .ok ownSettings := rfl

theorem make_grammar : Interface.make grammar ownSettings = .ok interface := rfl

theorem actions_grammar : grammar.pattern.actions =
    [("--options-first", .storeFlag), ("--no-help", .storeFlag), ("--version", .storeValue),
      ("--debug", .storeFlag), ("--help", .storeFlag), ("<file>", .storeValue), ("--", .storeFlag),
      ("<argv>", .appendValues)] := rfl

section Tokens

variable {opts : List Setting} {file : String} {ws : List String}

theorem toList_spelled (s : Setting) :
    ∃ first rest, s.spelled.toList = '-' :: '-' :: first :: rest := by
  cases s with
  | optionsFirst => exact ⟨_, _, rfl⟩
  | noHelp => exact ⟨_, _, rfl⟩
  | version text => exact ⟨'v', "ersion=".toList ++ text.toList, String.toList_append⟩

theorem splitAt_spelled (s : Setting) : ∃ form, s.option.long = some form ∧
    Text.splitAt '=' s.spelled.toList = (form.toList, s.value?.map String.toList) := by
  cases s with
  | optionsFirst => exact ⟨"--options-first", rfl, rfl⟩
  | noHelp => exact ⟨"--no-help", rfl, rfl⟩
  | version text =>
    have hform : '=' ∉ "--version".toList := by decide
    refine ⟨"--version", rfl, ?_⟩
    show Text.splitAt '=' ("--version=" ++ text).toList = _
    rw [String.toList_append]
    exact Text.splitAt_append hform text.toList

theorem resolves_option (s : Setting) {form : String} (h : s.option.long = some form) :
    options.Resolves form s.option := by
  cases s <;> obtain rfl := Option.some.inj h <;> exact .inl rfl

theorem valued_option (s : Setting) (next : Option String) :
    Conventions.Valued s.option s.value? next s.value? false := by
  cases s with
  | optionsFirst => exact .flag rfl rfl
  | noHelp => exact .flag rfl rfl
  | version text => exact .inline rfl rfl

theorem reads_spelled (s : Setting) (next : Option String) :
    interface.conventions.Reads false s.spelled next ⟨[s.token], false, false⟩ := by
  obtain ⟨first, rest, hlist⟩ := toList_spelled s
  obtain ⟨form, hlong, hsplit⟩ := splitAt_spelled s
  have hvalued := valued_option s next
  have hvalue : (s.value?.map String.toList).map String.ofList = s.value? := by
    rw [Option.map_map]
    cases s.value? <;> simp
  rw [← hvalue] at hvalued
  have hresolves : options.Resolves (String.ofList form.toList) s.option := by
    rw [String.ofList_toList]
    exact resolves_option s hlong
  have hreads : interface.conventions.ReadsLong s.spelled next (.option s.option s.spelled
      ((s.value?.map String.toList).map String.ofList)) false := .intro hsplit hresolves hvalued
  rw [hvalue] at hreads
  exact .long hlist hreads

theorem readsAll_file (h : file = "-" ∨ file.toList.head? ≠ some '-') (ws : List String) :
    interface.conventions.ReadsAll false (file :: ws) ((file :: ws).map .plain) true :=
  .cons (Conventions.reads_word h ws.head?) (Conventions.readsAll_literal ws)

/-- **The tokens of a command line of the tool**: its settings and otherwise plain words. -/
theorem readsAll (h : file = "-" ∨ file.toList.head? ≠ some '-') (opts : List Setting)
    (ws : List String) :
    interface.conventions.ReadsAll false (opts.map Setting.spelled ++ file :: ws)
      (tokensOf opts (file :: ws)) true := by
  induction opts with
  | nil => exact readsAll_file h ws
  | cons s opts ih => exact .cons (reads_spelled s _) ih

end Tokens

section Match

open Matching

variable {opts : List Setting} {file : String} {ws ys : List String}

theorem getElem?_setting {i : Nat} {s : Setting} (h : opts[i]? = some s) (ws : List String) :
    (tokensOf opts ws)[i]? = some s.token := by
  have htoken : (opts.map Setting.token)[i]? = some s.token := by
    rw [List.getElem?_map, h]
    rfl
  have hlt : i < (opts.map Setting.token).length := (List.getElem?_eq_some_iff.mp htoken).1
  rw [tokensOf, List.getElem?_append_left hlt, htoken]

theorem isOptionAt_setting {i : Nat} {s : Setting} (h : opts[i]? = some s) (name : String)
    (ws : List String) : isOptionAt (tokensOf opts ws) name i = (s.name == name) := by
  rw [isOptionAt, getElem?_setting h]
  rfl

theorem isOptionAt_word {i : Nat} (h : opts.length ≤ i) (name : String) (ws : List String) :
    isOptionAt (tokensOf opts ws) name i = false := by
  have hle : (opts.map Setting.token).length ≤ i := by
    rwa [List.length_map]
  rw [isOptionAt, tokensOf, List.getElem?_append_right hle, List.getElem?_map]
  cases ws[i - (opts.map Setting.token).length]? <;> rfl

theorem exists_setting {i : Nat} {name : String}
    (h : isOptionAt (tokensOf opts ws) name i = true) : ∃ s, opts[i]? = some s ∧ s.name = name := by
  cases hs : opts[i]? with
  | none =>
    rw [isOptionAt_word (List.getElem?_eq_none_iff.mp hs)] at h
    exact nomatch h
  | some s =>
    rw [isOptionAt_setting hs] at h
    exact ⟨s, rfl, beq_iff_eq.mp h⟩

theorem everything_tokensOf (opts : List Setting) (ws : List String) :
    everything (tokensOf opts ws) =
      List.range opts.length ++ List.range' opts.length ws.length := by
  rw [everything, tokensOf, List.length_append, List.length_map, List.length_map,
    List.range_eq_range', List.range_eq_range', ← List.range'_append_1, Nat.zero_add]

theorem option_mem (s : Setting) : s.option ∈ options.options := by
  cases s with
  | optionsFirst => decide
  | noHelp => decide
  | version text =>
    show ({ long := some "--version", arity := 1 } : OptionDef) ∈ options.options
    decide

/-- Distinct settings have distinct options. -/
theorem place_unique (h : (opts.map Setting.name).Nodup) {name : String} {i j : Nat}
    (hi : isOptionAt (tokensOf opts ws) name i = true)
    (hj : isOptionAt (tokensOf opts ws) name j = true) : i = j := by
  obtain ⟨s, hs, hsn⟩ := exists_setting hi
  obtain ⟨t, ht, htn⟩ := exists_setting hj
  have hlt : i < (opts.map Setting.name).length := by
    rw [List.length_map]
    exact (List.getElem?_eq_some_iff.mp hs).1
  apply (List.getElem?_inj hlt h).mp
  rw [List.getElem?_map, List.getElem?_map, hs, ht, Option.map_some, Option.map_some, hsn, htn]

/-- Without its options the command line of the tool has its words left. -/
theorem left_tokensOf (opts : List Setting) (ws : List String) :
    ((everything (tokensOf opts ws)).filter fun i =>
      options.options.all fun o => !isOptionAt (tokensOf opts ws) o.name i) =
        List.range' opts.length ws.length := by
  have hsettings : ((List.range opts.length).filter fun i =>
      options.options.all fun o => !isOptionAt (tokensOf opts ws) o.name i) = [] := by
    refine List.filter_eq_nil_iff.mpr fun i hi hall => ?_
    have hlt := List.mem_range.mp hi
    obtain ⟨s, hs⟩ : ∃ s, opts[i]? = some s := ⟨_, List.getElem?_eq_getElem hlt⟩
    have hother := List.all_eq_true.mp hall _ (option_mem s)
    rw [isOptionAt_setting hs, Setting.name, BEq.rfl] at hother
    exact nomatch hother
  have hwords : ((List.range' opts.length ws.length).filter fun i =>
      options.options.all fun o => !isOptionAt (tokensOf opts ws) o.name i) =
        List.range' opts.length ws.length := by
    refine List.filter_eq_self.mpr fun i hi => List.all_eq_true.mpr fun o _ => ?_
    rw [isOptionAt_word (List.mem_range'_1.mp hi).1]
    rfl
  rw [everything_tokensOf, List.filter_append, hsettings, hwords, List.nil_append]

/-- The matches of the settings, by the options in the order of their declarations. -/
def settingMatches (opts : List Setting) (ws : List String) : List LeafMatch :=
  options.options.filterMap
    (optionMatch? (tokensOf opts ws) (everything (tokensOf opts ws)))

/-- All settings are taken, whatever their order. -/
theorem prefers_settings (h : (opts.map Setting.name).Nodup) (ws : List String) :
    (enumerate (tokensOf opts ws) (.optional [.shortcut (options.options.map .ofOption)])).Prefers
      (everything (tokensOf opts ws))
      ⟨List.range' opts.length ws.length, settingMatches opts ws⟩ := by
  have hone : ∀ o ∈ options.options, ∀ i ∈ everything (tokensOf opts ws),
      ∀ j ∈ everything (tokensOf opts ws), isOptionAt (tokensOf opts ws) o.name i = true →
        isOptionAt (tokensOf opts ws) o.name j = true → i = j :=
    fun _ _ _ _ _ _ => place_unique h
  have hprefers := prefers_options options.distinct hone
  rw [left_tokensOf] at hprefers
  apply prefers_optional
  rwa [enumerate]

theorem drop_tokensOf (opts : List Setting) (ws : List String) :
    (tokensOf opts ws).drop opts.length = ws.map .plain := by
  rw [tokensOf, List.drop_left' (List.length_map _)]

/-- The words after the file, of which the marker may be the first, are taken by the rest of the
usage line. -/
theorem prefers_words {tokens : List Token} {k : Nat} (h : tokens.drop k = ys.map .plain) :
    (enumerate tokens (.optional [.oneOrMore (.leaf (.argument "<argv>"))])).Prefers
      (List.range' k ys.length) ⟨[], wordMatches "<argv>" k ys⟩ := by
  cases ys with
  | nil => exact prefers_optional_none (list_arguments_eq_nil tokens "<argv>")
  | cons y ys => exact prefers_optional (prefers_arguments h "<argv>")

/-- The marker is taken by itself and the words that are handed on by the repeated argument. -/
theorem prefers_handed {tokens : List Token} {k : Nat} (hws : HandsOn ys ws)
    (h : tokens.drop k = ws.map .plain) :
    ∃ marks j, (∀ m ∈ marks, LeafMatch.name m = "--") ∧
      (enumerateAll tokens false [.optional [.leaf (.command "--")],
        .optional [.oneOrMore (.leaf (.argument "<argv>"))]]).Prefers (List.range' k ws.length)
          ⟨[], marks ++ wordMatches "<argv>" j ys⟩ := by
  cases hws with
  | marked =>
    refine ⟨[⟨.command "--", k, .flag true⟩], k + 1, fun m hm => ?_, ?_⟩
    · rw [List.mem_singleton.mp hm]
      rfl
    · have hwords := prefers_words (drop_succ_of_words h)
      exact prefers_cons (prefers_optional (prefers_command h)) (prefers_singleton hwords)
  | plain hne =>
    refine ⟨[], k, fun m hm => absurd hm List.not_mem_nil, ?_⟩
    have hmark := list_command_eq_nil h hne
    exact prefers_cons (prefers_optional_none hmark) (prefers_singleton (prefers_words h))

/-- The matches of settings, a file and words, of which the marks bind nothing that is asked for. -/
def lineMatches (opts : List Setting) (file : String) (ws : List String) (marks : List LeafMatch)
    (j : Nat) (ys : List String) : List LeafMatch :=
  settingMatches opts (file :: ws) ++
    ⟨.argument "<file>", opts.length, .text file⟩ :: (marks ++ wordMatches "<argv>" j ys)

/-- **The match of a command line of the tool**: its settings, the file, and the words that are
handed on. -/
theorem run_tokensOf (h : (opts.map Setting.name).Nodup) (hws : HandsOn ys ws) (file : String) :
    ∃ marks j, (∀ m ∈ marks, LeafMatch.name m = "--") ∧
      (run (tokensOf opts (file :: ws)) grammar.pattern).matched =
        some (lineMatches opts file ws marks j ys) := by
  have hdrop := drop_tokensOf opts (file :: ws)
  obtain ⟨marks, j, hmarks, hhanded⟩ := prefers_handed hws (drop_succ_of_words hdrop)
  refine ⟨marks, j, hmarks, run_of_prefers (prefers_either ?_)⟩
  rw [usageLine, enumerate]
  have hsettings := prefers_settings h (file :: ws)
  have hfile := prefers_argument hdrop "<file>"
  exact prefers_cons hsettings (prefers_cons hfile hhanded)

end Match

end Synopsis.Tool
