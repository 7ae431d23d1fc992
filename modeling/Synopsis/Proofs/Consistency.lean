import Synopsis.Proofs.OptionGrowth
import Synopsis.Proofs.UsageFaults

/-!
# The options of a grammar and of its pattern

Reading a usage line meets the options that the line names, in their order, and leaves its shortcuts
empty until the declared options fill them. So the table of a grammar keeps all options, declared or
named by the pattern, except that one with two dashes for its name may have made way for another.
-/

namespace Synopsis

namespace Pattern

open OptionTable (Meets IsNew)

variable {t u v : OptionTable} {ps qs os : List Pattern} {s : List Lexeme} {lex : Lexeme}

/-- The options that the pattern names. -/
def options (p : Pattern) : List OptionDef :=
  p.leaves.filterMap Leaf.option?

def optionsAll (ps : List Pattern) : List OptionDef :=
  (leavesAll ps).filterMap Leaf.option?

theorem optionsAll_cons (p : Pattern) (ps : List Pattern) :
    optionsAll (p :: ps) = p.options ++ optionsAll ps :=
  List.filterMap_append

theorem optionsAll_map_ofOption (os : List OptionDef) : optionsAll (os.map ofOption) = os := by
  rw [optionsAll, leavesAll_map_ofOption, List.filterMap_map]
  exact List.filterMap_some

theorem mem_options {p : Pattern} {o : OptionDef} : o ∈ p.options ↔ .option o ∈ p.leaves := by
  rw [options, List.mem_filterMap]
  constructor
  · rintro ⟨l, hl, ho⟩
    cases l with
    | option o' =>
      obtain rfl := Option.some.inj ho
      exact hl
    | command | argument => exact nomatch ho
  · exact fun h => ⟨_, h, rfl⟩

theorem fillAll_append : ∀ ps qs : List Pattern,
    fillAll os (ps ++ qs) = fillAll os ps ++ fillAll os qs
  | [], qs => rfl
  | p :: ps, qs => by
    rw [List.cons_append, fillAll, fillAll, fillAll_append ps qs, List.cons_append]

/-- The patterns name the options met between two tables, and their shortcuts are empty. -/
structure Names (t : OptionTable) (ps : List Pattern) (u : OptionTable) : Prop where
  meets : Meets t (optionsAll ps) u
  unfilled : fillAll [] ps = ps

theorem names_nil : Names t [] t :=
  ⟨.nil, rfl⟩

theorem Names.append (h : Names t ps u) (hmore : Names u qs v) : Names t (ps ++ qs) v where
  meets := by
    rw [optionsAll, leavesAll_append, List.filterMap_append]
    exact h.meets.append hmore.meets
  unfilled := by rw [fillAll_append, h.unfilled, hmore.unfilled]

/-- A node in place of the patterns. -/
theorem Names.node {p : Pattern} (h : Names t ps u) (hleaves : p.leaves = leavesAll ps)
    (hfill : fill [] p = p) : Names t [p] u where
  meets := by
    rw [optionsAll, leavesAll, leavesAll, List.append_nil, hleaves]
    exact h.meets
  unfilled := by rw [fillAll, fillAll, hfill]

theorem Names.required (h : Names t ps u) : Names t [.required ps] u :=
  h.node rfl (by rw [fill, h.unfilled])

theorem Names.optional (h : Names t ps u) : Names t [.optional ps] u :=
  h.node rfl (by rw [fill, h.unfilled])

theorem Names.branch (h : Names t ps u) : Names t (branch ps) u := by
  unfold Pattern.branch
  split
  · exact h.required
  · exact h

theorem Names.choose (h : Names t ps u) : Names t (choose ps) u := by
  unfold Pattern.choose
  split
  · exact h.node rfl (by rw [fill, h.unfilled])
  · exact h

theorem Names.repeated (h : Names t ps u) : Names t [.oneOrMore (group ps)] u := by
  have hleaves : (group ps).leaves = leavesAll ps ∧ fill [] (group ps) = group ps := by
    unfold group
    split
    next p =>
      have hfill := h.unfilled
      rw [fillAll, fillAll] at hfill
      exact ⟨by rw [leavesAll, leavesAll, List.append_nil], (List.cons.inj hfill).1⟩
    next => exact ⟨rfl, by rw [fill, h.unfilled]⟩
  exact h.node hleaves.1 (by rw [fill, hleaves.2])

theorem names_leaves (ls : List Leaf) (h : Meets t (ls.filterMap Leaf.option?) u) :
    Names t (ls.map .leaf) u where
  meets := by
    rw [optionsAll, leavesAll_map_leaf]
    exact h
  unfilled := fillAll_map_leaf [] ls

theorem names_options {os : List OptionDef} (h : Meets t os u) : Names t (os.map ofOption) u where
  meets := by rwa [optionsAll_map_ofOption]
  unfilled := by rw [map_ofOption, fillAll_map_leaf]

theorem wordLeaf_option? (text : String) : (wordLeaf text).option? = none := by
  unfold wordLeaf
  split <;> rfl

theorem LongWord.meets {after : List Lexeme} {o : OptionDef} {first : Char} {word : List Char}
    (hr : lex.text.toList = '-' :: '-' :: first :: word) (h : LongWord t lex after o u) :
    Meets t [o] u := by
  cases h with
  | new hnone =>
    obtain ⟨tail, htail⟩ :=
      splitAt_dashed (Prod.eta (Text.splitAt '=' ('-' :: '-' :: first :: word))).symm
    have hform : (longForm lex).toList = '-' :: '-' :: tail := by
      rw [longForm, hr, String.toList_ofList, htail]
    exact .new (.long hform rfl rfl hnone) .nil
  | known hfound _ =>
    exact .known (List.mem_filter.mp (List.mem_of_head? hfound)).1 .nil

theorem Letters.meets {letters : List Char} {after : List Lexeme} {os : List OptionDef}
    (h : Letters t letters after os u) : Meets t os u := by
  induction h with
  | nil => exact .nil
  | flag hf _ ih =>
    cases hf with
    | new hnone ho => exact .new (.short (by rw [ho]) (by rw [ho]) hnone) ih
    | known hone _ => exact .known (OptionTable.mem_of_filter_eq hone).1 ih
  | valued hone _ _ => exact .known (OptionTable.mem_of_filter_eq hone).1 .nil

theorem Word.names {after : List Lexeme} (h : Word t lex after ps u) : Names t ps u := by
  cases h with
  | shortcut => exact ⟨.nil, rfl⟩
  | long hr hw => exact names_options (hw.meets hr)
  | cluster _ _ hl => exact names_options hl.meets
  | name =>
    refine names_leaves [wordLeaf lex.text] ?_
    rw [List.filterMap_cons_none (wordLeaf_option? lex.text)]
    exact .nil

mutual

theorem Choice.names : ∀ {t s ps u}, Choice t s ps u → Names t ps u
  | _, _, _, _, .single h => h.names
  | _, _, _, _, .among h _ hmore => (h.names.branch.append hmore.names).choose

theorem Branches.names : ∀ {t s qs u}, Branches t s qs u → Names t (qs.flatMap branch) u
  | _, _, _, _, .last h => by
    rw [List.flatMap_singleton]
    exact h.names.branch
  | _, _, _, _, .more h _ hmore => by
    rw [List.flatMap_cons]
    exact h.names.branch.append hmore.names

theorem Sequence.names : ∀ {t s ps u}, Sequence t s ps u → Names t ps u
  | _, _, _, _, .nil => names_nil
  | _, _, _, _, .cons h hmore => h.names.append hmore.names
  | _, _, _, _, .repeated h _ hmore => h.names.repeated.append hmore.names

theorem Element.names : ∀ {t lex s ps u}, Element t lex s ps u → Names t ps u
  | _, _, _, _, _, .word _ _ h => h.names
  | _, _, _, _, _, .parentheses _ h _ => h.names.required
  | _, _, _, _, _, .brackets _ h _ => h.names.optional

end

/-- The tree that a line is parsed to has empty shortcuts. -/
theorem Choice.unfilled (h : Choice t s ps u) : fill [] (.required ps) = .required ps :=
  (List.cons.inj h.names.required.unfilled).1

mutual

theorem mem_leaves_fill {l : Leaf} : ∀ p : Pattern,
    l ∈ (fill os p).leaves → l ∈ p.leaves ∨ l ∈ leavesAll os
  | .leaf _, h => .inl h
  | .required ps, h => mem_leavesAll_fillAll ps h
  | .optional ps, h => mem_leavesAll_fillAll ps h
  | .shortcut _, h => .inr h
  | .either ps, h => mem_leavesAll_fillAll ps h
  | .oneOrMore p, h => mem_leaves_fill p h

theorem mem_leavesAll_fillAll {l : Leaf} : ∀ ps : List Pattern,
    l ∈ leavesAll (fillAll os ps) → l ∈ leavesAll ps ∨ l ∈ leavesAll os
  | [], h => .inl h
  | p :: ps, h => by
    rw [leavesAll, List.mem_append]
    rcases List.mem_append.mp h with h | h
    · exact (mem_leaves_fill p h).imp_left .inl
    · exact (mem_leavesAll_fillAll ps h).imp_left .inr

end

mutual

/-- Filling keeps all leaves outside the shortcuts. -/
theorem leaves_fill_nil_subset : ∀ p : Pattern, (fill [] p).leaves ⊆ (fill os p).leaves
  | .leaf _ => List.Subset.refl _
  | .required ps => leavesAll_fillAll_nil_subset ps
  | .optional ps => leavesAll_fillAll_nil_subset ps
  | .shortcut _ => List.nil_subset _
  | .either ps => leavesAll_fillAll_nil_subset ps
  | .oneOrMore p => leaves_fill_nil_subset p

theorem leavesAll_fillAll_nil_subset : ∀ ps : List Pattern,
    leavesAll (fillAll [] ps) ⊆ leavesAll (fillAll os ps)
  | [] => List.Subset.refl _
  | p :: ps => by
    intro l h
    rcases List.mem_append.mp h with h | h
    · exact List.mem_append_left _ (leaves_fill_nil_subset p h)
    · exact List.mem_append_right _ (leavesAll_fillAll_nil_subset ps h)

end

theorem mem_of_mem_unnamed {declared : OptionTable} {p : Pattern} {o : OptionDef}
    (h : .option o ∈ leavesAll (unnamed declared p)) : o ∈ declared.options := by
  rw [unnamed, leavesAll_map_ofOption] at h
  obtain ⟨o', ho', heq⟩ := List.mem_map.mp h
  obtain rfl := Leaf.option.inj heq
  exact List.mem_of_mem_filter ho'

/-- A usage line names the options met, and its shortcuts are filled with declared ones. -/
theorem readLine_options {declared : OptionTable} {line : Pattern}
    (h : readLine declared t s = .ok (line, u)) :
    ∃ met, Meets t met u ∧ met ⊆ line.options ∧ line.options ⊆ met ++ declared.options := by
  obtain ⟨ps, hchoice, rfl⟩ := readLine_eq_ok.mp h
  have hmeets := hchoice.names.required.meets
  rw [optionsAll_cons, optionsAll, leavesAll, List.filterMap_nil, List.append_nil] at hmeets
  have hline : Pattern.line declared ps =
      fill (unnamed declared (.required ps)) (.required ps) := by rw [fill]; rfl
  rw [hline]
  refine ⟨_, hmeets, fun o ho => ?_, fun o ho => ?_⟩
  · rw [mem_options, ← hchoice.unfilled] at ho
    exact mem_options.mpr (leaves_fill_nil_subset _ ho)
  · rw [List.mem_append, mem_options]
    exact (mem_leaves_fill _ (mem_options.mp ho)).imp_right mem_of_mem_unnamed

end Pattern

open OptionTable (Meets Keeps)

/-- Line by line the table keeps the options that the lines name. -/
theorem readLines_keeps {declared t u : OptionTable} {met : List OptionDef}
    {ss : List (List Lexeme)} (h : Keeps declared met t) (hmet : declared.options ⊆ met)
    (hread : (readLines declared t ss).result = .ok u) :
    Keeps declared (met ++ Pattern.optionsAll (readLines declared t ss).lines) u := by
  induction ss generalizing t met with
  | nil =>
    obtain rfl := Except.ok.inj hread
    rwa [readLines, Pattern.optionsAll, Pattern.leavesAll, List.filterMap_nil, List.append_nil]
  | cons s ss ih =>
    rw [readLines] at hread ⊢
    cases hline : Pattern.readLine declared t s with
    | error e =>
      rw [hline] at hread
      cases hread
    | ok read =>
      obtain ⟨line, table⟩ := read
      rw [hline] at hread
      obtain ⟨own, hown, hsub, hsup⟩ := Pattern.readLine_options hline
      have hkeeps : Keeps declared (met ++ line.options) table := by
        refine (h.meets hown).of_subset ?_ ?_
        · exact List.append_subset.mpr
            ⟨List.subset_append_left _ _, List.subset_append_of_subset_right _ hsub⟩
        · refine List.append_subset.mpr ⟨List.subset_append_left _ _, List.Subset.trans hsup ?_⟩
          exact List.append_subset.mpr
            ⟨List.subset_append_right _ _, List.subset_append_of_subset_left _ hmet⟩
      have hmore := ih hkeeps (List.subset_append_of_subset_left _ hmet) hread
      rwa [List.append_assoc, ← Pattern.optionsAll_cons] at hmore

namespace Grammar

/-- The options declared and those that the pattern names. -/
def mentioned (g : Grammar) : List OptionDef :=
  g.declared.options ++ g.pattern.options

/-- **The table holds what the sections and the pattern say**: the declared options unchanged before
all others, and every option that the pattern names under its name. -/
structure IsConsistent (g : Grammar) : Prop where
  declared : g.declared.options <+: g.options.options
  named : ∀ o, .option o ∈ g.pattern.leaves → g.options.get? o.name = some o

theorem keeps_of_ofHelp {source : String} {g : Grammar} (h : Grammar.ofHelp source = .ok g) :
    Keeps g.declared g.mentioned g.options := by
  unfold Grammar.ofHelp Compilation.ofHelp at h
  split at h
  next => exact nomatch h
  next => exact nomatch h
  next usage declared _ hdeclared =>
    dsimp only at h
    cases hread : (readLines declared declared usage.lines).result with
    | error e =>
      rw [hread] at h
      exact nomatch h
    | ok options =>
      rw [hread] at h
      obtain rfl := Except.ok.inj h
      exact readLines_keeps (OptionTable.keeps_self (OptionTable.read_spelled hdeclared))
        (List.Subset.refl _) hread

/-- **Every option has the definition that the table holds under its name**, whether the sections
declare it or the pattern names it, unless the name is two dashes. So a grammar is consistent
exactly if no two different options have two dashes for their name. -/
theorem isConsistent_iff {source : String} {g : Grammar} (h : Grammar.ofHelp source = .ok g) :
    (∀ o ∈ g.mentioned, o.name ≠ "--" → g.options.get? o.name = some o) ∧
    (g.IsConsistent ↔
      ∀ o ∈ g.mentioned, ∀ o' ∈ g.mentioned, o.name = "--" → o'.name = "--" → o = o') := by
  have hkeeps := keeps_of_ofHelp h
  refine ⟨fun o ho hne => ?_, fun hg => ?_, fun hone => ?_⟩
  · exact OptionTable.get?_eq_some (hkeeps.held o ho hne)
  · have hfound : ∀ o ∈ g.mentioned, g.options.get? o.name = some o := by
      intro o ho
      rcases List.mem_append.mp ho with ho | ho
      · exact OptionTable.get?_eq_some (hg.declared.subset ho)
      · exact hg.named o (Pattern.mem_options.mp ho)
    intro o ho o' ho' hname hname'
    have hsame := hfound o' ho'
    rw [hname', ← hname, hfound o ho] at hsame
    exact Option.some.inj hsame
  · refine ⟨?_, fun o ho => ?_⟩
    · exact Keyed.prefix_of_map_prefix g.options.distinct hkeeps.first fun o ho =>
        hkeeps.mem_options hone (List.mem_append_left _ ho)
    · have hmem := List.mem_append_right g.declared.options (Pattern.mem_options.mpr ho)
      exact OptionTable.get?_eq_some (hkeeps.mem_options hone hmem)

/-- An option of the section and one that only the usage line names. -/
theorem isConsistent_out_verbose :
    ∃ g, Grammar.ofHelp "Usage: p -v [options]\n\nOptions: -o FILE, --out FILE" = .ok g ∧
      g.mentioned = [{ short := some "-o", long := some "--out", arity := 1 },
        { short := some "-v" }, { short := some "-o", long := some "--out", arity := 1 }] ∧
      g.IsConsistent := by
  have hu : Usage.read "Usage: p -v [options]\n\nOptions: -o FILE, --out FILE" =
      .ok ⟨⟨"Usage: p -v [options]", 1, 22⟩, ⟨"p", 1, 7⟩,
        [[⟨"-v", 1, 9⟩, ⟨"[", 1, 12⟩, ⟨"options", 1, 13⟩, ⟨"]", 1, 20⟩]]⟩ := by decide +kernel
  have hd : OptionTable.read "Usage: p -v [options]\n\nOptions: -o FILE, --out FILE" =
      .ok ⟨[{ short := some "-o", long := some "--out", arity := 1 }], by decide⟩ := by
    decide +kernel
  have h : Grammar.ofHelp "Usage: p -v [options]\n\nOptions: -o FILE, --out FILE" =
      .ok ⟨"Usage: p -v [options]\n\nOptions: -o FILE, --out FILE", "Usage: p -v [options]", "p",
        .either [.required [.leaf (.option { short := some "-v" }), .optional [.shortcut
          [.leaf (.option { short := some "-o", long := some "--out", arity := 1 })]]]],
        ⟨[{ short := some "-o", long := some "--out", arity := 1 }, { short := some "-v" }],
          by decide⟩,
        ⟨[{ short := some "-o", long := some "--out", arity := 1 }], by decide⟩⟩ := by
    rw [grammar_ofHelp hu hd]
    cbv
  exact ⟨_, h, by decide, (isConsistent_iff h).2.mpr (by decide)⟩

/-- A dash in a cluster of short options, with two dashes declared. -/
theorem declared_marker_replaced :
    ∃ g, Grammar.ofHelp "Usage: p -a-b\n\nOptions: --  The rest." = .ok g ∧
      g.declared.options = [{ long := some "--" }] ∧
      g.options.options = [{ short := some "--" }, { short := some "-a" }, { short := some "-b" }] ∧
      ¬ g.IsConsistent := by
  have hu : Usage.read "Usage: p -a-b\n\nOptions: --  The rest." =
      .ok ⟨⟨"Usage: p -a-b", 1, 14⟩, ⟨"p", 1, 7⟩, [[⟨"-a-b", 1, 9⟩]]⟩ := by decide +kernel
  have hd : OptionTable.read "Usage: p -a-b\n\nOptions: --  The rest." =
      .ok ⟨[{ long := some "--" }], by decide⟩ := by decide +kernel
  have h : Grammar.ofHelp "Usage: p -a-b\n\nOptions: --  The rest." =
      .ok ⟨"Usage: p -a-b\n\nOptions: --  The rest.", "Usage: p -a-b", "p",
        .either [.required [.leaf (.option { short := some "-a" }),
          .leaf (.option { short := some "--" }), .leaf (.option { short := some "-b" })]],
        ⟨[{ short := some "--" }, { short := some "-a" }, { short := some "-b" }], by decide⟩,
        ⟨[{ long := some "--" }], by decide⟩⟩ := by
    rw [grammar_ofHelp hu hd]
    cbv
  exact ⟨_, h, rfl, rfl, fun hg => absurd hg.declared (by decide)⟩

end Grammar

end Synopsis
