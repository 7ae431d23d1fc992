import Synopsis.Proofs.Reading
import Synopsis.Proofs.Safety

/-!
# Whose options are matched

An interface reads the options of its grammar and built-in ones that it adds for names in force that
the grammar does not declare. An added option is named by the form that it was added for, and tokens
are answered exactly if one of them has such a name. So no token of an added option is ever matched,
and every option that is matched is found under its name in the table of the grammar.
-/

namespace Synopsis

namespace Conventions

variable {c : Conventions} {raw : String} {next : Option String} {o : OptionDef} {t : Token}

theorem ReadsLetters.option_mem {letters : List Char} {tokens : List Token} {took : Bool}
    (h : c.ReadsLetters raw next letters tokens took) (ht : t ∈ tokens) (ho : t.option? = some o) :
    o ∈ c.options.options := by
  induction h with
  | nil => exact nomatch ht
  | flag hone _ _ ih =>
    rcases List.mem_cons.mp ht with rfl | ht
    · obtain rfl := Option.some.inj ho
      exact (OptionTable.mem_of_filter_eq hone).1
    · exact ih ht
  | valued hone _ =>
    obtain rfl := List.mem_singleton.mp ht
    obtain rfl := Option.some.inj ho
    exact (OptionTable.mem_of_filter_eq hone).1

theorem Reads.option_mem {literal : Bool} {s : Step} (h : c.Reads literal raw next s)
    (ht : t ∈ s.tokens) (ho : t.option? = some o) : o ∈ c.options.options := by
  cases h with
  | literal =>
    obtain rfl := List.mem_singleton.mp ht
    exact nomatch ho
  | marker =>
    dsimp only at ht
    split at ht
    · obtain rfl := List.mem_singleton.mp ht
      exact nomatch ho
    · exact nomatch ht
  | long _ hl =>
    obtain rfl := List.mem_singleton.mp ht
    cases hl with
    | intro _ hresolves _ =>
      obtain rfl := Option.some.inj ho
      exact hresolves.mem
  | cluster _ _ hl => exact hl.option_mem ht ho
  | word =>
    obtain rfl := List.mem_singleton.mp ht
    exact nomatch ho

/-- The options that arguments are read into are options of the table. -/
theorem ReadsAll.option_mem {literal after : Bool} {arguments : List String} {tokens : List Token}
    (h : c.ReadsAll literal arguments tokens after) (ht : t ∈ tokens) (ho : t.option? = some o) :
    o ∈ c.options.options := by
  induction h with
  | nil => exact nomatch ht
  | cons hs _ ih =>
    rcases List.mem_append.mp ht with ht | ht
    · exact hs.option_mem ht ho
    · exact ih ht

end Conventions

namespace Interface

variable {g : Grammar} {s : Settings} {i : Interface} {c : Conventions} {arguments : List String}
  {tokens : List Token} {added : List OptionDef} {o : OptionDef}

theorem name_builtinOption {name : String} (h : name ≠ "") : (builtinOption name).name = name := by
  rw [builtinOption]
  split
  · exact OptionDef.name_of_long rfl h
  · exact OptionDef.name_of_short rfl rfl h

theorem builtinOption_empty : (builtinOption "").isNamed = false := rfl

/-- **Where an added option comes from**: from a name in force, which is its name too, and which is
no form of an option of the table. -/
theorem mem_builtins {table : OptionTable} (h : builtins table s = .ok added) (ho : o ∈ added) :
    o.name ∈ (builtinNames s).names ∧ table.lookup o.name = [] := by
  obtain ⟨name, hname, hoption⟩ := mem_of_mapM_eq_ok h ho
  obtain ⟨hforce, hnone⟩ := List.mem_filter.mp hname
  dsimp only at hoption
  split at hoption
  next hnamed =>
    obtain rfl := Except.ok.inj hoption
    have hne : name ≠ "" := by
      rintro rfl
      exact nomatch builtinOption_empty.symm.trans hnamed
    rw [name_builtinOption hne]
    exact ⟨hforce, List.isEmpty_iff.mp hnone⟩
  next => exact nomatch hoption

/-- One of the tokens is an option with one of the names. -/
def Asks (tokens : List Token) (wanted : NameSet) : Prop :=
  ∃ t ∈ tokens, ∃ o, t.option? = some o ∧ o.name ∈ wanted.names

theorem any_contains_iff {wanted : NameSet} :
    ((tokens.filterMap Token.option?).map OptionDef.name).any (wanted.names.contains ·) = true ↔
      Asks tokens wanted := by
  simp only [List.any_map, List.any_eq_true, List.mem_filterMap, Function.comp_apply,
    List.contains_iff_mem]
  constructor
  · rintro ⟨o, ⟨t, ht, ho⟩, hname⟩
    exact ⟨t, ht, o, ho, hname⟩
  · rintro ⟨t, ht, o, ho, hname⟩
    exact ⟨o, ⟨t, ht, ho⟩, hname⟩

theorem asks_builtinNames : Asks tokens (builtinNames s) ↔
    (s.autoHelp = true ∧ Asks tokens s.helpNames) ∨
      (s.version.isSome = true ∧ Asks tokens s.versionNames) := by
  simp only [Asks, mem_builtinNames]
  constructor
  · rintro ⟨t, ht, o, ho, ⟨hon, hname⟩ | ⟨hon, hname⟩⟩
    · exact .inl ⟨hon, t, ht, o, ho, hname⟩
    · exact .inr ⟨hon, t, ht, o, ho, hname⟩
  · rintro (⟨hon, t, ht, o, ho, hname⟩ | ⟨hon, t, ht, o, ho, hname⟩)
    · exact ⟨t, ht, o, ho, .inl ⟨hon, hname⟩⟩
    · exact ⟨t, ht, o, ho, .inr ⟨hon, hname⟩⟩

/-- The tokens are answered exactly if one of them is an option with a name in force. -/
theorem isSome_builtinAnswer : (i.builtinAnswer tokens).isSome = true ↔
    Asks tokens (builtinNames i.settings) := by
  rw [asks_builtinNames, ← any_contains_iff, ← any_contains_iff, builtinAnswer]
  dsimp only
  split
  next hhelp => exact iff_of_true rfl (.inl (Bool.and_eq_true_iff.mp hhelp))
  next hhelp =>
    rw [Bool.and_eq_true] at hhelp
    rw [or_iff_right hhelp]
    cases i.settings.version with
    | none => simp
    | some version =>
      dsimp only
      split
      next hversion => exact iff_of_true rfl ⟨rfl, hversion⟩
      next hversion => exact iff_of_false Bool.false_ne_true (hversion ·.2)

/-- An answer is the help text or the version. -/
theorem eq_of_builtinAnswer {answer : Stop} (h : i.builtinAnswer tokens = some answer) :
    answer = .help i.grammar.source ∨
      ∃ version, i.settings.version = some version ∧ answer = .version version := by
  rw [builtinAnswer] at h
  dsimp only at h
  split at h
  · exact .inl (Option.some.inj h).symm
  · split at h
    next version hversion =>
      split at h
      · exact .inr ⟨version, hversion, (Option.some.inj h).symm⟩
      · exact nomatch h
    next => exact nomatch h

/-- A command line read by the given conventions. -/
def processBy (i : Interface) (c : Conventions) (arguments : List String) : Reading :=
  match (Cursor.start arguments).tokenize c with
  | (cursor, some e) => ⟨cursor, .stopped (.input e)⟩
  | (cursor, none) =>
    match i.builtinAnswer cursor.tokens with
    | some s => ⟨cursor, .stopped s⟩
    | none => ⟨cursor, i.bind cursor.tokens⟩

theorem process_eq_processBy (i : Interface) (arguments : List String) :
    i.process arguments = i.processBy i.conventions arguments := rfl

theorem verdict_processBy (h : c.tokenize arguments = .ok tokens) :
    (i.processBy c arguments).verdict =
      match i.builtinAnswer tokens with
      | some answer => .stopped answer
      | none => i.bind tokens := by
  rw [Conventions.tokenize] at h
  rw [processBy]
  generalize (Cursor.start arguments).tokenize c = result at h ⊢
  obtain ⟨cursor, _ | e⟩ := result
  · obtain rfl := Except.ok.inj h
    dsimp only
    cases i.builtinAnswer cursor.tokens <;> rfl
  · exact nomatch h

/-- **The tokens reach the matcher**: no argument is faulty and no built-in option is answered. -/
def Reaches (i : Interface) (c : Conventions) (arguments : List String) (tokens : List Token) :
    Prop :=
  c.tokenize arguments = .ok tokens ∧ i.builtinAnswer tokens = none

/-- **Only the grammar's own options are matched.** However the interface reads a command line with
its options, each option token that reaches the matcher has the definition that the table of the
grammar holds under its name. A token of an option that the interface added never does, since it is
answered by the help text or the version. -/
theorem reaches_with_own_options (h : make g s = .ok i) (hc : c.options = i.options)
    (arguments : List String) :
    (∀ tokens, i.Reaches c arguments tokens →
      (i.processBy c arguments).verdict = i.bind tokens ∧
        ∀ o raw v, .option o raw v ∈ tokens → g.options.get? o.name = some o) ∧
    ∀ tokens, c.tokenize arguments = .ok tokens → ∀ added, builtins g.options s = .ok added →
      ∀ o ∈ added, ∀ raw v, .option o raw v ∈ tokens →
        ∃ answer, (i.processBy c arguments).verdict = .stopped answer ∧
          (answer = .help g.source ∨
            ∃ version, s.version = some version ∧ answer = .version version) := by
  obtain ⟨added, hadded, rfl⟩ := make_eq_ok.mp h
  have hanswered : ∀ tokens, ∀ o ∈ added, ∀ raw v, .option o raw v ∈ tokens →
      ∃ answer, builtinAnswer ⟨g, s, g.pattern.actions, g.options.insertAll added⟩ tokens =
        some answer := by
    intro tokens o ho raw v ht
    have hname := (mem_builtins hadded ho).1
    exact Option.isSome_iff_exists.mp (isSome_builtinAnswer.mpr ⟨_, ht, o, rfl, hname⟩)
  constructor
  · rintro tokens ⟨htokens, hnone⟩
    refine ⟨by rw [verdict_processBy htokens, hnone], fun o raw v ht => ?_⟩
    obtain ⟨after, hread⟩ := Conventions.tokenize_eq_ok.mp htokens
    have hmem := hread.option_mem ht rfl
    rw [hc] at hmem
    rcases Keyed.mem_putAll hmem with hmem | hmem
    · obtain ⟨answer, hanswer⟩ := hanswered tokens o hmem raw v ht
      exact nomatch hnone.symm.trans hanswer
    · exact Keyed.get?_eq_some g.options.distinct hmem
  · intro tokens htokens added' hadded' o ho raw v ht
    obtain rfl : added' = added := Except.ok.inj (hadded'.symm.trans hadded)
    obtain ⟨answer, hanswer⟩ := hanswered tokens o ho raw v ht
    exact ⟨answer, by rw [verdict_processBy htokens, hanswer], eq_of_builtinAnswer hanswer⟩

/-- An option of the grammar that is spelled like the one for help, whose long form is added. -/
theorem reaches_with_declared_host :
    ∃ (g : Grammar) (s : Settings) (i : Interface) (host help : OptionDef),
      make g s = .ok i ∧ builtins g.options s = .ok [help] ∧
      i.Reaches i.conventions ["-h", "localhost"] [.option host "-h" (some "localhost")] ∧
      g.options.get? host.name = some host ∧
      ∃ answer, (i.process ["--help"]).verdict = .stopped answer ∧
        (answer = .help g.source ∨
          ∃ version, s.version = some version ∧ answer = .version version) := by
  let host : OptionDef := { short := some "-h", long := some "--host", arity := 1 }
  let help : OptionDef := { long := some "--help" }
  let g : Grammar := ⟨"Usage: prog -h HOST", "Usage: prog -h HOST", "prog",
    .either [.required [.ofOption host]], .ofList [host], .ofList []⟩
  let s : Settings := ⟨false, true, none, false, false, 0.6, Builtin.help.defaultNames,
    Builtin.version.defaultNames, []⟩
  let i : Interface := ⟨g, s, g.pattern.actions, .ofList [host, help]⟩
  have hmake : make g s = .ok i := rfl
  have hadded : builtins g.options s = .ok [help] := rfl
  have hreaches : i.Reaches i.conventions ["-h", "localhost"]
      [.option host "-h" (some "localhost")] := ⟨rfl, rfl⟩
  have hc : i.conventions.options = i.options := rfl
  refine ⟨g, s, i, host, help, hmake, hadded, hreaches, ?_, ?_⟩
  · exact ((reaches_with_own_options hmake hc _).1 _ hreaches).2 _ _ _ (List.mem_singleton_self _)
  · exact (reaches_with_own_options hmake hc ["--help"]).2 [.option help "--help" none] rfl _
      hadded _ (List.mem_singleton_self _) _ _ (List.mem_singleton_self _)

end Interface

end Synopsis
