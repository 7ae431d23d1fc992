import Synopsis.Proofs.Binding
import Synopsis.Proofs.OwnOptions
import Synopsis.Proofs.Serving
import Synopsis.Proofs.ToolMatch

/-!
# The request of a command line of the tool

The matches of a command line of the tool are bound to its names, and the bindings make the request:
the settings are the configuration, and the words that are handed on are the command line to read.
-/

namespace Synopsis.Tool

section Values

open Matching

variable {opts : List Setting} {ws ys : List String} {name : String} {o : OptionDef}

/-- The first token of an option is that of the setting with its name. -/
theorem firstOption?_tokensOf (h : (opts.map Setting.name).Nodup) (ws : List String)
    (name : String) :
    (firstOption? (tokensOf opts ws) name (everything (tokensOf opts ws))).map Prod.snd =
      (Keyed.get? Setting.name name opts).map Setting.token := by
  cases hfirst : firstOption? (tokensOf opts ws) name (everything (tokensOf opts ws)) with
  | none =>
    have hnone := firstOption?_eq_none.mp hfirst
    have hget : Keyed.get? Setting.name name opts = none := by
      refine Keyed.get?_eq_none.mpr fun s hs hname => ?_
      obtain ⟨i, hlt, hi⟩ := List.getElem_of_mem hs
      have hs : opts[i]? = some s := List.getElem?_eq_some_iff.mpr ⟨hlt, hi⟩
      have hall : i ∈ everything (tokensOf opts ws) := by
        rw [everything_tokensOf]
        exact List.mem_append_left _ (List.mem_range.mpr hlt)
      have hother := hnone i hall
      rw [isOptionAt_setting hs, hname, BEq.rfl] at hother
      exact nomatch hother
    rw [hget]
    rfl
  | some found =>
    obtain ⟨i, t⟩ := found
    obtain ⟨-, -, -, ht, hkind, -⟩ := firstOption?_eq_some.mp hfirst
    have hopt : isOptionAt (tokensOf opts ws) name i = true := by
      rw [isOptionAt, ht]
      exact hkind
    obtain ⟨s, hs, rfl⟩ := exists_setting hopt
    rw [getElem?_setting hs] at ht
    rw [Keyed.get?_eq_some h (List.mem_of_getElem? hs), ← Option.some.inj ht]
    rfl

theorem name_of_optionMatch? {tokens : List Token} {left : List Nat} {m : LeafMatch}
    (h : optionMatch? tokens left o = some m) : m.name = o.name := by
  obtain ⟨found, -, rfl⟩ := Option.map_eq_some_iff.mp h
  rfl

theorem name_of_settingMatches {m : LeafMatch} (h : m ∈ settingMatches opts ws) :
    m.name ∈ options.names := by
  obtain ⟨o, ho, hm⟩ := List.mem_filterMap.mp h
  rw [name_of_optionMatch? hm]
  exact List.mem_map_of_mem ho

theorem matchesOf_filterMap {f : OptionDef → Option LeafMatch}
    (hf : ∀ o m, f o = some m → m.name = o.name) (name : String) (os : List OptionDef) :
    matchesOf name (os.filterMap f) = (os.filter (·.name == name)).filterMap f := by
  rw [matchesOf, List.filter_filterMap, List.filterMap_filter]
  refine List.filterMap_congr fun o _ => ?_
  cases hm : f o with
  | none => simp
  | some m => rw [Option.filter_some, hf o m hm]

theorem matchesOf_settingMatches (ho : o ∈ options.options) :
    matchesOf o.name (settingMatches opts ws) =
      (optionMatch? (tokensOf opts ws) (everything (tokensOf opts ws)) o).toList := by
  have hown : options.options.filter (·.name == o.name) = [o] :=
    Keyed.filter_eq_singleton options.distinct ho BEq.rfl fun _ _ hname => beq_iff_eq.mp hname
  rw [settingMatches, matchesOf_filterMap fun _ _ => name_of_optionMatch?, hown]
  cases hm : optionMatch? (tokensOf opts ws) (everything (tokensOf opts ws)) o with
  | none =>
    rw [List.filterMap_cons_none hm]
    rfl
  | some m =>
    rw [List.filterMap_cons_some hm]
    rfl

/-- What an option of the tool is matched with is the value of the setting with its name. -/
theorem value_of_optionMatch? (h : (opts.map Setting.name).Nodup) (ws : List String)
    (o : OptionDef) :
    (optionMatch? (tokensOf opts ws) (everything (tokensOf opts ws)) o).map LeafMatch.value =
      (Keyed.get? Setting.name o.name opts).map fun s => s.token.value := by
  have hfirst := congrArg (Option.map Token.value) (firstOption?_tokensOf h ws o.name)
  rw [Option.map_map, Option.map_map] at hfirst
  rw [optionMatch?, Option.map_map]
  exact hfirst

theorem matchesOf_eq_nil {ms : List LeafMatch} (h : ∀ m ∈ ms, m.name ≠ name) :
    matchesOf name ms = [] := by
  refine List.filter_eq_nil_iff.mpr fun m hm hname => ?_
  exact h m hm (beq_iff_eq.mp hname)

theorem matchesOf_settingMatches_eq_nil (h : name ∉ options.names) :
    matchesOf name (settingMatches opts ws) = [] :=
  matchesOf_eq_nil fun _ hm heq => h (heq ▸ name_of_settingMatches hm)

theorem matchesOf_marks {marks : List LeafMatch} (hmarks : ∀ m ∈ marks, m.name = "--")
    (h : name ≠ "--") : matchesOf name marks = [] :=
  matchesOf_eq_nil fun m hm heq => h (heq ▸ hmarks m hm)

theorem name_of_wordMatches {k : Nat} {m : LeafMatch} (h : m ∈ wordMatches name k ys) :
    m.name = name := by
  induction ys generalizing k with
  | nil => exact absurd h List.not_mem_nil
  | cons y ys ih =>
    rcases List.mem_cons.mp h with rfl | h
    · rfl
    · exact ih h

theorem matchesOf_wordMatches (name : String) (k : Nat) (ys : List String) :
    matchesOf name (wordMatches name k ys) = wordMatches name k ys :=
  List.filter_eq_self.mpr fun _ hm => beq_iff_eq.mpr (name_of_wordMatches hm)

theorem matchesOf_wordMatches_eq_nil {other : String} (h : other ≠ name) (k : Nat)
    (ys : List String) : matchesOf other (wordMatches name k ys) = [] :=
  matchesOf_eq_nil fun _ hm heq => h (heq ▸ name_of_wordMatches hm)

theorem index_of_wordMatches (name : String) (k : Nat) (ys : List String) :
    (wordMatches name k ys).map LeafMatch.index = List.range' k ys.length := by
  induction ys generalizing k with
  | nil => rfl
  | cons y ys ih => rw [wordMatches, List.map_cons, ih, List.length_cons, List.range'_succ]

theorem value_of_wordMatches (name : String) (k : Nat) (ys : List String) :
    (wordMatches name k ys).map LeafMatch.value = ys.map .text := by
  induction ys generalizing k with
  | nil => rfl
  | cons y ys ih => rw [wordMatches, List.map_cons, ih, List.map_cons]

variable {file : String} {marks : List LeafMatch} {j : Nat}

theorem matchesOf_lineMatches (name : String) :
    matchesOf name (lineMatches opts file ws marks j ys) =
      matchesOf name (settingMatches opts (file :: ws)) ++
        (matchesOf name [⟨.argument "<file>", opts.length, .text file⟩] ++
          (matchesOf name marks ++ matchesOf name (wordMatches "<argv>" j ys))) := by
  show matchesOf name (settingMatches opts (file :: ws) ++
    ([⟨.argument "<file>", opts.length, .text file⟩] ++ (marks ++ wordMatches "<argv>" j ys))) = _
  rw [matchesOf_append, matchesOf_append, matchesOf_append]

theorem matchesOf_option (hmarks : ∀ m ∈ marks, LeafMatch.name m = "--")
    (ho : o ∈ options.options) :
    matchesOf o.name (lineMatches opts file ws marks j ys) =
      (optionMatch? (tokensOf opts (file :: ws)) (everything (tokensOf opts (file :: ws)))
        o).toList := by
  have hnames : ∀ o ∈ options.options,
      o.name ≠ "<file>" ∧ o.name ≠ "--" ∧ o.name ≠ "<argv>" := by decide
  obtain ⟨hfile, hmark, hargv⟩ := hnames o ho
  have hother : matchesOf o.name [⟨.argument "<file>", opts.length, .text file⟩] = [] :=
    matchesOf_eq_nil fun m hm heq => hfile (heq ▸ List.mem_singleton.mp hm ▸ rfl)
  rw [matchesOf_lineMatches, hother, matchesOf_marks hmarks hmark,
    matchesOf_wordMatches_eq_nil hargv, matchesOf_settingMatches ho]
  exact List.append_nil _

theorem matchesOf_file (hmarks : ∀ m ∈ marks, LeafMatch.name m = "--") :
    matchesOf "<file>" (lineMatches opts file ws marks j ys) =
      [⟨.argument "<file>", opts.length, .text file⟩] := by
  rw [matchesOf_lineMatches, matchesOf_settingMatches_eq_nil (by decide),
    matchesOf_marks hmarks (by decide), matchesOf_wordMatches_eq_nil (by decide)]
  rfl

theorem matchesOf_words (hmarks : ∀ m ∈ marks, LeafMatch.name m = "--") :
    matchesOf "<argv>" (lineMatches opts file ws marks j ys) = wordMatches "<argv>" j ys := by
  rw [matchesOf_lineMatches, matchesOf_settingMatches_eq_nil (by decide),
    matchesOf_marks hmarks (by decide), matchesOf_wordMatches]
  rfl

end Values

section Bind

open Matching

variable {opts : List Setting} {file : String} {ws ys : List String} {b : Bindings}

/-- **What a command line of the tool binds**: the options that are given to their values, the file,
and the words that are handed on. -/
structure Binds (opts : List Setting) (file : String) (ys : List String) (b : Bindings) : Prop where
  option : ∀ name ∈ options.names, ∀ a, (name, a) ∈ grammar.pattern.actions →
    b.query name .absent =
      a.total ((Keyed.get? Setting.name name opts).map fun s => s.token.value).toList
  file : b.query "<file>" .absent = .text file
  words : b.query "<argv>" .absent = .list (ys.map .text)

section Run

variable {marks : List LeafMatch} {j : Nat} (hmarks : ∀ m ∈ marks, LeafMatch.name m = "--")
  (hrun : (run (tokensOf opts (file :: ws)) grammar.pattern).matched =
    some (lineMatches opts file ws marks j ys))
  (hb : Bindings.reduce (lineMatches opts file ws marks j ys) grammar.pattern.actions = .ok b)

include hmarks hrun hb

theorem query_option (h : (opts.map Setting.name).Nodup) {name : String} {a : Action}
    (hname : name ∈ options.names) (ha : (name, a) ∈ grammar.pattern.actions) :
    b.query name .absent =
      a.total ((Keyed.get? Setting.name name opts).map fun s => s.token.value).toList := by
  obtain ⟨o, ho, rfl⟩ := List.mem_map.mp hname
  have hmatches : matchesOf o.name (lineMatches opts file ws marks j ys) = _ :=
    matchesOf_option hmarks ho
  have hvalue := value_of_optionMatch? h (file :: ws) o
  generalize optionMatch? (tokensOf opts (file :: ws)) (everything (tokensOf opts (file :: ws))) o =
    found at hmatches hvalue
  rw [query_of_run hrun hb ha, valuesOf, hmatches, ← hvalue]
  · cases found <;> rfl
  · rw [hmatches]
    cases found with
    | none => exact .nil
    | some m => exact List.pairwise_singleton _ m

theorem query_file : b.query "<file>" .absent = .text file := by
  have ha : ("<file>", .storeValue) ∈ grammar.pattern.actions := by
    rw [actions_grammar]
    simp
  rw [query_of_run hrun hb ha, valuesOf, matchesOf_file hmarks]
  · rfl
  · rw [matchesOf_file hmarks]
    exact List.pairwise_singleton _ _

theorem query_words : b.query "<argv>" .absent = .list (ys.map .text) := by
  have ha : ("<argv>", .appendValues) ∈ grammar.pattern.actions := by
    rw [actions_grammar]
    simp
  rw [query_of_run hrun hb ha, valuesOf, matchesOf_words hmarks, value_of_wordMatches]
  · cases ys <;> rfl
  · rw [matchesOf_words hmarks, ← List.pairwise_map, index_of_wordMatches]
    exact List.pairwise_lt_range'

end Run

theorem exists_binds (h : (opts.map Setting.name).Nodup) (hws : HandsOn ys ws) (file : String) :
    ∃ b, interface.bind (tokensOf opts (file :: ws)) = .bound b ∧ Binds opts file ys b := by
  obtain ⟨marks, j, hmarks, hrun⟩ := run_tokensOf h hws file
  obtain ⟨b, hb, -⟩ := reduce_of_run hrun
  refine ⟨b, ?_, fun name hname a ha => query_option hmarks hrun hb h hname ha,
    query_file hmarks hrun hb, query_words hmarks hrun hb⟩
  have hown : Bindings.reduce (lineMatches opts file ws marks j ys) interface.actions = .ok b := hb
  rw [Interface.bind, show interface.grammar.pattern = grammar.pattern from rfl, hrun]
  dsimp only
  rw [hown]

end Bind

section Request

variable {opts : List Setting} {file : String} {ys : List String} {b : Bindings}

/-- A flag is set if it is among the settings. -/
theorem isSet_flag (opts : List Setting) (s : Setting) (hself : ∀ t, t.name = s.name → t = s)
    (hvalue : s.token.value = .flag true) :
    (Action.storeFlag.total
      ((Keyed.get? Setting.name s.name opts).map fun t => t.token.value).toList).isSet =
      opts.contains s := by
  rw [List.contains_eq_mem]
  cases hget : Keyed.get? Setting.name s.name opts with
  | none =>
    have hs : s ∉ opts := fun hs => Keyed.get?_eq_none.mp hget s hs rfl
    rw [decide_eq_false hs]
    rfl
  | some t =>
    obtain ⟨ht, hname⟩ := Keyed.mem_of_get? hget
    obtain rfl := hself t hname
    rw [decide_eq_true ht]
    show t.token.value.isSet = true
    rw [hvalue]
    rfl

/-- The version is that of the setting for it. -/
theorem text_version :
    (Action.storeValue.total
      ((Keyed.get? Setting.name "--version" opts).map fun t => t.token.value).toList).text? =
      opts.findSome? Setting.value? := by
  induction opts with
  | nil => rfl
  | cons s opts ih =>
    rw [Keyed.get?] at ih ⊢
    cases s with
    | optionsFirst => exact ih
    | noHelp => exact ih
    | version text => rfl

theorem texts_list (ys : List String) : (Value.list (ys.map .text)).texts = ys := by
  show (ys.map Value.text).filterMap Value.text? = ys
  rw [List.filterMap_map]
  exact List.filterMap_some

/-- **The request that the bindings make**: the settings describe the configuration, and the command
line to read is what was handed on. -/
theorem requestOf_binds (hb : Binds opts file ys b) (s : Session) :
    requestOf b s = ⟨file, ys, configOf opts, false, s⟩ := by
  have hfirst := hb.option "--options-first" (by decide) .storeFlag (by simp [actions_grammar])
  have hhelp := hb.option "--no-help" (by decide) .storeFlag (by simp [actions_grammar])
  have hversion := hb.option "--version" (by decide) .storeValue (by simp [actions_grammar])
  have hdebug := hb.option "--debug" (by decide) .storeFlag (by simp [actions_grammar])
  have hnever : Keyed.get? Setting.name "--debug" opts = none :=
    Keyed.get?_eq_none.mpr fun s _ => by cases s <;> simp
  have hset : (b.query "--options-first" .absent).isSet = opts.contains .optionsFirst := by
    rw [hfirst]
    exact isSet_flag opts .optionsFirst (fun t ht => by cases t <;> simp at ht ⊢) rfl
  have hunset : (b.query "--no-help" .absent).isSet = opts.contains .noHelp := by
    rw [hhelp]
    exact isSet_flag opts .noHelp (fun t ht => by cases t <;> simp at ht ⊢) rfl
  rw [requestOf, hset, hunset, hversion, text_version, hdebug, hnever, hb.file, hb.words,
    texts_list]
  rfl

/-- No setting asks for the help text of the tool. -/
theorem builtinAnswer_tokensOf (opts : List Setting) (ws : List String) :
    interface.builtinAnswer (tokensOf opts ws) = none := by
  rw [← Option.not_isSome_iff_eq_none, Interface.isSome_builtinAnswer]
  rintro ⟨t, ht, o, ho, hname⟩
  rcases List.mem_append.mp ht with ht | ht
  · obtain ⟨s, -, rfl⟩ := List.mem_map.mp ht
    obtain rfl : s.option = o := Option.some.inj ho
    revert hname
    cases s with
    | optionsFirst => decide
    | noHelp => decide
    | version text =>
      show (Setting.version text).name ∉ _
      rw [Setting.name_version]
      decide
  · obtain ⟨w, -, rfl⟩ := List.mem_map.mp ht
    exact nomatch ho

theorem verdict_process {i : Interface} {arguments : List String} {tokens : List Token}
    {after : Bool} (h : i.conventions.ReadsAll false arguments tokens after)
    (ha : i.builtinAnswer tokens = none) : (i.process arguments).verdict = i.bind tokens := by
  rw [i.process_eq_processBy, Interface.verdict_processBy (Conventions.tokenize_eq_ok.mpr ⟨_, h⟩),
    ha]

theorem conclude_bound {i : Interface} {r : Reading} (h : r.verdict = .bound b) :
    i.conclude r = .ok ⟨i.grammar.program, r.cursor.arguments, true, b, none, [], none⟩ := by
  rw [Interface.conclude, h]

theorem answered_bound {t : Session} {r : Reading} (h : r.verdict = .bound b) (p : Program) :
    t.answered p r = t := by
  rw [Session.answered, Reading.answer?, h]

/-- A command line of the tool that fits makes a request. -/
theorem request_eq {s t : Session} {p : Program} {arguments : List String} {a : Arguments}
    (hd : ({} : Session).declare help ownConfig none = (s, .ok p))
    (hp : s.parse p arguments = (t, .ok a)) (hstop : a.stop = none) :
    request arguments = .ok (.ok (requestOf a.bindings t)) := by
  -- unfolded under its argument, or else the grammar is computed
  generalize hrequest : request = f
  delta request at hrequest
  rw [← hrequest, hd]
  dsimp only
  rw [hp]
  dsimp only
  rw [hstop]

/-- **The tool takes the command line to read as it is**, under the configuration that the settings
describe. Reading its own command line leaves no trace but what it caches. -/
theorem request_handed {ws : List String} (h : (opts.map Setting.name).Nodup)
    (hfile : file = "-" ∨ file.toList.head? ≠ some '-') (hws : HandsOn ys ws) :
    ∃ s : Session, s.cache.Honest ∧ s.namespaces = .initial ∧ s.output = {} ∧
      request (opts.map Setting.spelled ++ file :: ws) =
        .ok (.ok ⟨file, ys, configOf opts, false, s⟩) := by
  obtain ⟨b, hbind, hb⟩ := exists_binds h hws file
  have hverdict := verdict_process (readsAll hfile opts ws) (builtinAnswer_tokensOf opts _)
  have hm : ownConfig.merge (Session.homeOf ({} : Session).namespaces none).2.config =
      .ok ownSettings := merge_ownConfig
  obtain ⟨t, p, hdeclare, hcache, hnamespaces, houtput, hread⟩ :=
    Session.declare_read GrammarCache.honest_initial ofHelp_help hm make_grammar
  refine ⟨t, hcache, hnamespaces, houtput, ?_⟩
  have hbound := hverdict.trans hbind
  generalize hreading : interface.process (opts.map Setting.spelled ++ file :: ws) = reading
    at hbound
  have hparse : t.parse p (opts.map Setting.spelled ++ file :: ws) =
      (t, .ok ⟨interface.grammar.program, reading.cursor.arguments, true, b, none, [], none⟩) := by
    rw [Session.parse, hread, hreading]
    dsimp only
    rw [answered_bound hbound, conclude_bound hbound]
  rw [request_eq hdeclare hparse rfl, requestOf_binds hb]

end Request

end Synopsis.Tool
