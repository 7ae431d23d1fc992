import Synopsis.Interface
import Synopsis.Proofs.Binding
import Synopsis.Proofs.Locality
import Synopsis.Proofs.Success

/-!
# Reading a command line always ends

Reading a command line looks up actions by their names, tokens by their places, options by their
forms and the option most like an unknown one. `Interface.Safe` says that none of this is in vain,
and that a match never takes a value into one of another kind. Hence there is no command line
without arguments: they are bound or say why not (`Arguments.Settled`).
-/

namespace Synopsis

namespace Action

/-- The current value can take one more match: the first match discards it, and later ones go on
with a list or a number. -/
def Fits (a : Action) (first : Bool) (current : Value) : Prop :=
  first = true ∨
    match a with
    | store _ => True
    | append _ => ∃ vs, current = .list vs
    | count _ => ∃ n, current = .count n

theorem fits_total (a : Action) (vs : List Value) : a.Fits vs.isEmpty (a.total vs) := by
  cases vs with
  | nil => exact .inl rfl
  | cons v vs =>
    refine .inr ?_
    cases a with
    | store w => trivial
    | append ws => exact ⟨v :: vs, rfl⟩
    | count n => exact ⟨(v :: vs).length, rfl⟩

end Action

namespace Bindings

theorem isEmpty_valuesOf (name : String) (ms : List LeafMatch) :
    (valuesOf name ms).isEmpty = !(ms.map LeafMatch.name).contains name := by
  induction ms with
  | nil => rfl
  | cons m ms ih =>
    by_cases hm : m.name = name
    · simp [valuesOf, matchesOf, hm]
    · have hname : ¬ name = m.name := fun h => hm h.symm
      simpa [valuesOf, matchesOf, hm, hname] using ih

/-- **A match finds its action and a value that it can be taken into.** -/
theorem finds_of_fold {actions : List (String × Action)} (hn : (actions.map Prod.fst).Nodup)
    {before : List LeafMatch} (hbefore : ∀ q ∈ before, q.name ∈ actions.map Prod.fst)
    {m : LeafMatch} (hm : m.name ∈ actions.map Prod.fst) :
    ∃ a b v, Keyed.get? Prod.fst m.name actions = some (m.name, a) ∧
      foldMatches actions [] (initial actions) before = .ok b ∧ b.get? m.name = some v ∧
      a.Fits (!(before.map LeafMatch.name).contains m.name) v := by
  obtain ⟨⟨name, a⟩, hx, rfl⟩ := List.mem_map.mp hm
  have hget := Keyed.get?_eq_some hn hx
  refine ⟨a, _, a.total (valuesOf m.name before), hget, foldMatches_initial hn hbefore, ?_, ?_⟩
  · rw [Bindings.get?, Keyed.get?_map_entries, hget]
    rfl
  · rw [← isEmpty_valuesOf]
    exact a.fits_total _

end Bindings

/-- What a match consumed is bound to the names of the pattern. -/
theorem Matching.reduce_of_run {tokens : List Token} {p : Pattern} {ms : List LeafMatch}
    (h : (run tokens p).matched = some ms) : ∃ b, Bindings.reduce ms p.actions = .ok b ∧
      b.names = (p.leaves.map Leaf.name).eraseDups := by
  refine ⟨_, Bindings.reduce_eq p.nodup_actions (names_of_run h), ?_⟩
  rw [← p.map_fst_actions, Bindings.names, List.map_map]
  rfl

namespace Conventions

/-- Among some candidates one is the nearest. -/
theorem isSome_nearest (form : String) {candidates : List String} (h : candidates ≠ []) :
    (nearest form candidates).isSome := by
  cases candidates with
  | nil => exact absurd rfl h
  | cons s rest =>
    rw [nearest]
    cases nearest form rest with
    | none => rfl
    | some found =>
      dsimp only
      split <;> rfl

end Conventions

theorem OptionTable.isSome_long_of_mem {t : OptionTable} {form : String} {o : OptionDef}
    (h : o ∈ t.byLong form ++ t.byStart form) : o.long.isSome := by
  rcases List.mem_append.mp h with h | h
  · have hlong := (List.mem_filter.mp h).2
    rw [beq_iff_eq] at hlong
    rw [hlong]
    rfl
  · have hlong := (List.mem_filter.mp h).2
    cases ho : o.long with
    | none => simp [OptionDef.long?, ho] at hlong
    | some l => rfl

namespace NameSet

theorem mem_insertName {n name : String} {l : List String} :
    n ∈ insertName name l ↔ n = name ∨ n ∈ l := by
  induction l with
  | nil => exact List.mem_singleton.trans (or_iff_left List.not_mem_nil).symm
  | cons s rest ih =>
    rw [insertName]
    split
    next heq =>
      rw [heq]
      exact ⟨.inr, fun h => h.elim (fun h => h ▸ List.mem_cons_self) id⟩
    next =>
      split
      · exact List.mem_cons
      · rw [List.mem_cons, ih, List.mem_cons]
        exact or_left_comm

theorem mem_ofList {n : String} {l : List String} : n ∈ (ofList l).names ↔ n ∈ l := by
  induction l with
  | nil => exact Iff.rfl
  | cons s rest ih =>
    refine mem_insertName.trans ?_
    rw [List.mem_cons]
    exact or_congr_right ih

end NameSet

namespace Interface

/-- The names in force are those of the options that are answered. -/
theorem mem_builtinNames {s : Settings} {name : String} :
    name ∈ (builtinNames s).names ↔
      (s.autoHelp = true ∧ name ∈ s.helpNames.names) ∨
        (s.version.isSome = true ∧ name ∈ s.versionNames.names) := by
  rw [builtinNames, NameSet.union, NameSet.mem_ofList, List.mem_append]
  refine or_congr ?_ ?_
  · cases s.autoHelp <;> simp [NameSet.empty]
  · cases s.version.isSome <;> simp [NameSet.empty]

end Interface

namespace Settings

/-- No built-in option has an empty name. -/
def IsNamed (s : Settings) : Prop :=
  "" ∉ s.helpNames.names ∧ "" ∉ s.versionNames.names

theorem IsNamed.ne_of_mem {s : Settings} (h : s.IsNamed) {name : String}
    (hn : name ∈ (Interface.builtinNames s).names) : name ≠ "" := by
  rintro rfl
  rcases Interface.mem_builtinNames.mp hn with ⟨-, hn⟩ | ⟨-, hn⟩
  · exact h.1 hn
  · exact h.2 hn

end Settings

namespace Interface

variable {g : Grammar} {s : Settings} {i : Interface}

theorem isNamed_builtinOption {name : String} (h : name ≠ "") :
    (builtinOption name).isNamed = true := by
  rw [builtinOption]
  split
  · simp [OptionDef.isNamed, OptionDef.long?, h]
  · simp [OptionDef.isNamed, OptionDef.short?, h]

theorem make_eq_ok : make g s = .ok i ↔
    ∃ added, builtins g.options s = .ok added ∧
      ⟨g, s, g.pattern.actions, g.options.insertAll added⟩ = i := by
  rw [make, bind_eq_ok]
  exact exists_congr fun added => and_congr_right fun _ => pure_eq_ok

/-- A grammar and settings whose built-in options are named make an interface. -/
theorem exists_make (g : Grammar) (h : s.IsNamed) : ∃ i, make g s = .ok i := by
  have hmap : ∃ added, builtins g.options s = .ok added := by
    refine exists_mapM_eq_ok fun name hname => ⟨builtinOption name, ?_⟩
    have hne := h.ne_of_mem (List.mem_filter.mp hname).1
    rw [if_pos (isNamed_builtinOption hne)]
  obtain ⟨added, hadded⟩ := hmap
  exact ⟨_, make_eq_ok.mpr ⟨added, hadded, rfl⟩⟩

theorem actions_of_make (h : make g s = .ok i) : i.actions = i.grammar.pattern.actions := by
  obtain ⟨added, -, rfl⟩ := make_eq_ok.mp h
  rfl

theorem grammar_of_make (h : make g s = .ok i) : i.grammar = g := by
  obtain ⟨added, -, rfl⟩ := make_eq_ok.mp h
  rfl

theorem settings_of_make (h : make g s = .ok i) : i.settings = s := by
  obtain ⟨added, -, rfl⟩ := make_eq_ok.mp h
  rfl

/-- **Nothing is looked up in vain while a command line is read.** -/
structure Safe (i : Interface) : Prop where
  /-- The options among which a long form may be meant have a long form to show. -/
  long : ∀ form, ∀ o ∈ i.options.byLong form ++ i.options.byStart form, o.long.isSome
  /-- If there is any long form, one of them is most like an unknown one. -/
  nearest : ∀ form, i.options.options.filterMap OptionDef.long? ≠ [] →
    (Conventions.nearest form (i.options.options.filterMap OptionDef.long?)).isSome
  /-- What stands behind the last token, if anything, makes no difference to a match. -/
  behind : ∀ tokens more : List Token,
    Matching.outcomes (tokens ++ more) i.grammar.pattern (Matching.everything tokens) =
      Matching.outcomes tokens i.grammar.pattern (Matching.everything tokens)
  /-- All that the best attempt leaves are tokens. -/
  closest : ∀ tokens, ∀ k ∈ (Matching.run tokens i.grammar.pattern).closest, k < tokens.length
  /-- Each match finds its action and a value that it can be taken into. -/
  folds : ∀ tokens matched, (Matching.run tokens i.grammar.pattern).matched = some matched →
    ∀ before m after, Bindings.inOrder matched = before ++ m :: after →
      ∃ a b v, Keyed.get? Prod.fst m.name i.actions = some (m.name, a) ∧
        Bindings.foldMatches i.actions [] (Bindings.initial i.actions) before = .ok b ∧
        b.get? m.name = some v ∧ a.Fits (!(before.map LeafMatch.name).contains m.name) v

theorem safe_of_actions (h : i.actions = i.grammar.pattern.actions) : i.Safe where
  long form o ho := OptionTable.isSome_long_of_mem ho
  nearest form := Conventions.isSome_nearest form
  behind tokens more := by
    refine Matching.outcomes_congr (.ofPattern i.grammar.pattern) _ fun k hk => ?_
    rw [List.map_append, List.getElem?_append_left]
    rw [List.length_map]
    exact List.mem_range.mp hk
  closest tokens k hk :=
    List.mem_range.mp ((Matching.closest_sublist tokens i.grammar.pattern).subset hk)
  folds tokens matched hmatched before m after horder := by
    have hnames : ∀ q ∈ before ++ m :: after, q.name ∈ i.grammar.pattern.actions.map Prod.fst := by
      intro q hq
      rw [← horder] at hq
      exact Matching.names_of_run hmatched q ((Bindings.inOrder_perm matched).mem_iff.mp hq)
    rw [h]
    exact Bindings.finds_of_fold i.grammar.pattern.nodup_actions
      (fun q hq => hnames q (List.mem_append_left _ hq)) (hnames m (by simp))

/-- A verdict binds exactly the names of the pattern, or says why nothing is bound. -/
inductive Sound (i : Interface) : Verdict → Prop
  | bound {b : Bindings} : b.names = (i.grammar.pattern.leaves.map Leaf.name).eraseDups →
      Sound i (.bound b)
  | stopped (s : Stop) : Sound i (.stopped s)

theorem sound_bind (h : i.actions = i.grammar.pattern.actions) (tokens : List Token) :
    i.Sound (i.bind tokens) := by
  rw [bind]
  cases hm : (Matching.run tokens i.grammar.pattern).matched with
  | none => simpa only [hm] using .stopped _
  | some matched =>
    obtain ⟨b, hb, hnames⟩ := Matching.reduce_of_run hm
    simpa only [hm, h, hb] using .bound hnames

/-- **Reading a command line binds exactly the names of the pattern or says why not.** -/
theorem sound_process (h : i.actions = i.grammar.pattern.actions) (arguments : List String) :
    i.Sound (i.process arguments).verdict := by
  rw [process]
  split
  · exact .stopped _
  · split
    · exact .stopped _
    · exact sound_bind h _

end Interface

/-- **What arguments say of how reading ended.** -/
structure Arguments.Settled (a : Arguments) (p : Pattern) : Prop where
  matched_iff : a.matched = true ↔ a.stop = none
  names : a.matched = true → a.bindings.names = (p.leaves.map Leaf.name).eraseDups
  bindings : a.matched = false → a.bindings = []
  stop : a.matched = false →
    (∃ e, a.stop = some (.input e)) ∨ (∃ left, a.stop = some (.mismatch left)) ∨
      (∃ text, a.stop = some (.help text)) ∨ ∃ text, a.stop = some (.version text)
  output : ∀ text, a.output = some text ↔
    a.stop = some (.help text) ∨ a.stop = some (.version text)

/-- The arguments, or the error that a faulty command line is. -/
def Arguments.orRaised (a : Arguments) : Except Failure Arguments :=
  match a.stop with
  | some (.input e) => .error (.raised (.input e))
  | some (.mismatch left) => .error (.raised (.mismatch left))
  | _ => .ok a

namespace Interface

variable {i : Interface}

/-- The interface under settings that make a faulty command line an error. -/
def raising (i : Interface) : Interface :=
  { i with settings := { i.settings with raiseException := true } }

theorem make_raising {g : Grammar} {s : Settings} (h : make g s = .ok i) :
    make g { s with raiseException := true } = .ok i.raising := by
  obtain ⟨added, hadded, rfl⟩ := make_eq_ok.mp h
  exact make_eq_ok.mpr ⟨added, hadded, rfl⟩

theorem conclude_of_sound {r : Reading} (h : i.Sound r.verdict)
    (hquiet : i.settings.raiseException = false) :
    ∃ a, i.conclude r = .ok a ∧ a.Settled i.grammar.pattern ∧
      i.raising.conclude r = a.orRaised := by
  obtain ⟨cursor, verdict⟩ := r
  cases h with
  | bound hnames =>
    refine ⟨_, rfl, ?_, rfl⟩
    constructor <;> simp [hnames]
  | stopped s =>
    refine ⟨⟨i.grammar.program, cursor.arguments, false, [], some s, errorData cursor s,
      s.output?⟩, ?_, ?_, ?_⟩
    · simp [conclude, hquiet]
    · cases s <;> constructor <;> simp [Stop.output?]
    · cases s <;> rfl

/-- **Every command line has arguments**, and under settings that make a faulty one an error it is
one exactly if the arguments say that it is faulty. -/
theorem parse_settled (h : i.actions = i.grammar.pattern.actions)
    (hquiet : i.settings.raiseException = false) (arguments : List String) :
    ∃ a, i.parse arguments = .ok a ∧ a.Settled i.grammar.pattern ∧
      i.raising.parse arguments = a.orRaised :=
  conclude_of_sound (sound_process h arguments) hquiet

end Interface

end Synopsis
