import Synopsis.Proofs.Isolation
import Synopsis.Proofs.ToolRequest
import Synopsis.Proofs.UsageLines

/-!
# The tool hands command lines on

What the tool answers is what a program that is declared by the help text, under the configuration
that the settings describe, makes of exactly the words that were handed on.
-/

namespace Synopsis

namespace Session

variable {s : Session} {source : String} {config : Config} {settings : Settings}
  {r : Option NamespaceRef}

/-- A help text that cannot be read declares no program. -/
theorem declare_refused {e : HelpError} (hc : s.cache.Honest)
    (hs : Grammar.ofHelp source = .error e)
    (hm : config.merge (homeOf s.namespaces r).2.config = .ok settings) :
    (s.declare source config r).2 = .error (.help e) := by
  have ht := hc.transparent source
  rw [hs] at ht
  rw [declare]
  simp only [hm]
  rw [analyse]
  dsimp only
  rcases hresult : s.cache.compile source with ⟨cache, e' | compiled⟩
  · rw [hresult] at ht
    have he : e' = e := Except.error.inj ht
    rw [he]
  · rw [hresult] at ht
    cases ht

theorem exists_ofHelp {t : Session} {p : Program} (hc : s.cache.Honest)
    (h : s.declare source config r = (t, .ok p)) : ∃ g, Grammar.ofHelp source = .ok g := by
  have hdeclares := declares hc source config r
  rw [h] at hdeclares
  cases hdeclares with
  | made _ hs _ => exact ⟨_, hs⟩

end Session

namespace Tool

/-- **The exit code and the output that arguments call for**: the bindings if the command line
matches, the answer to a built-in option if it asks for one, and else a failure. -/
def due (a : Arguments) : Nat × String :=
  if a.matched then (0, line (Json.ofBindings a.bindings))
  else
    match a.output with
    | some text => (0, line text)
    | none => (1, "")

/-- **What comes of handing a command line on.** A help text with a fault that it is checked for is
refused with code 2. The program of a help text without a fault reads exactly the command line, and
what is due to its arguments is the answer. -/
inductive Forwards (doc : String) (config : Config) (ys : List String) :
    Except RunError Report → Prop
  | refused {e report} : Grammar.ofHelp doc = .error e → e.fault.isChecked = true →
      report.code = 2 → report.output = "" → Forwards doc config ys (.ok report)
  /-- A fault that is met by accident is not caught. -/
  | escaped {e} : Grammar.ofHelp doc = .error e → e.fault.isChecked = false →
      Forwards doc config ys (.error (.declare (.help e)))
  | read {s p a report} : ({} : Session).declare doc config none = (s, .ok p) →
      (s.parse p ys).2 = .ok a → (report.code, report.output) = due a →
      Forwards doc config ys (.ok report)

/-- The exit code and the output of a report, if there is one. -/
def shown (outcome : Except RunError Report) : Except RunError (Nat × String) :=
  outcome.map fun report => (report.code, report.output)

variable {doc : String} {i : Interface} {r : Reading} {a : Arguments}

/-- **The exit code and the output are determined** by the help text, the configuration and the
command line that is handed on. -/
theorem Forwards.unique {config : Config} {ys : List String} {x y : Except RunError Report}
    (hx : Forwards doc config ys x) (hy : Forwards doc config ys y) : shown x = shown y := by
  have hread : ∀ {s p e}, ({} : Session).declare doc config none = (s, .ok p) →
      Grammar.ofHelp doc ≠ .error e := by
    intro s p e hd he
    obtain ⟨g, hg⟩ := Session.exists_ofHelp GrammarCache.honest_initial hd
    exact nomatch hg.symm.trans he
  cases hx with
  | refused he hchecked hcode houtput =>
    cases hy with
    | refused _ _ hcode' houtput' =>
      show Except.ok (_, _) = Except.ok (_, _)
      rw [hcode, houtput, hcode', houtput']
    | escaped he' hchecked' =>
      obtain rfl := Except.error.inj (he.symm.trans he')
      exact nomatch hchecked.symm.trans hchecked'
    | read hd => exact absurd he (hread hd)
  | escaped he hchecked =>
    cases hy with
    | refused he' hchecked' =>
      obtain rfl := Except.error.inj (he.symm.trans he')
      exact nomatch hchecked.symm.trans hchecked'
    | escaped he' =>
      obtain rfl := Except.error.inj (he.symm.trans he')
      rfl
    | read hd => exact absurd he (hread hd)
  | read hd ha hdue =>
    cases hy with
    | refused he => exact absurd he (hread hd)
    | escaped he => exact absurd he (hread hd)
    | read hd' ha' hdue' =>
      obtain ⟨rfl, hp⟩ := Prod.mk.inj (hd.symm.trans hd')
      obtain rfl := Except.ok.inj hp
      obtain rfl := Except.ok.inj (ha.symm.trans ha')
      show Except.ok (_, _) = Except.ok (_, _)
      rw [hdue, hdue']

theorem printable_of_ofHelp {g : Grammar} (h : Grammar.ofHelp doc = .ok g) :
    ∃ usage, Usage.printable doc = .ok usage := by
  rw [Grammar.ofHelp, Compilation.ofHelp] at h
  cases hread : Usage.read doc with
  | error e =>
    rw [hread] at h
    cases h
  | ok usage =>
    have hfind := (Usage.read_eq_ok hread).1
    rw [Usage.printable, hfind]
    exact ⟨_, rfl⟩

theorem output_of_conclude (h : i.conclude r = .ok a) : a.output = r.answer? := by
  rw [Interface.conclude] at h
  rw [Reading.answer?]
  cases hv : r.verdict with
  | bound b =>
    rw [hv] at h
    rw [← Except.ok.inj h]
  | unbound name =>
    rw [hv] at h
    cases h
  | stopped stop =>
    rw [hv] at h
    dsimp only at h ⊢
    split at h
    · cases h
    · rw [← Except.ok.inj h]

/-- An answer to a built-in option is printed. -/
theorem printed_answered {t : Session} (h : t.output = {}) (p : Program) (r : Reading) :
    (t.answered p r).output.printed = (r.answer?.map line).getD "" := by
  rw [Session.answered]
  cases r.answer? with
  | none =>
    dsimp only
    rw [h]
    rfl
  | some text =>
    show (t.output.send text (some p.name)).1.printed = line text
    rw [h]
    show "" ++ (text ++ "\n") = text ++ "\n"
    exact String.empty_append

/-- The output of arguments is the answer that they stopped with, if it is one. -/
theorem output_of_settled {p : Pattern} (h : a.Settled p) :
    a.output = a.stop.bind Stop.output? := by
  refine Option.ext fun text => ?_
  rw [h.output]
  cases a.stop with
  | none => simp
  | some stop => cases stop <;> simp [Stop.output?]

/-- The report on arguments and what was printed before it are what is due to them. -/
theorem conclude_due {p : Pattern} {g : Grammar} (hg : Grammar.ofHelp doc = .ok g)
    (ha : a.Settled p) :
    ∃ report, conclude doc a = .ok report ∧
      (report.code, (a.output.map line).getD "" ++ report.output) = due a := by
  have hmatched := ha.matched_iff
  have houtput := output_of_settled ha
  rw [conclude, due]
  cases hstop : a.stop with
  | none =>
    have hnone : a.output = none := by
      rw [houtput, hstop]
      rfl
    rw [hmatched.mpr hstop, hnone]
    refine ⟨_, rfl, ?_⟩
    show (0, "" ++ line (Json.ofBindings a.bindings)) = (0, line (Json.ofBindings a.bindings))
    rw [String.empty_append]
  | some stop =>
    have hunmatched : a.matched = false := by
      refine Bool.eq_false_iff.mpr fun h => ?_
      rw [hmatched.mp h] at hstop
      exact nomatch hstop
    have hanswer : a.output = stop.output? := by
      rw [houtput, hstop]
      rfl
    obtain ⟨usage, husage⟩ := printable_of_ofHelp hg
    rw [hunmatched, hanswer, husage]
    dsimp only
    rw [Stop.isFailure]
    cases stop.output? with
    | none => exact ⟨_, rfl, rfl⟩
    | some text =>
      refine ⟨_, rfl, ?_⟩
      show (0, line text ++ "") = (0, line text)
      rw [String.append_empty]

variable {q : Request} {settings : Settings}

/-- A help text that cannot be read is refused, unless its fault is met by accident. -/
theorem answer_error {text : String} {e : HelpError} (hc : q.session.cache.Honest)
    (hs : Grammar.ofHelp (Text.unifyNewlines text) = .error e)
    (hm : q.config.merge (Session.homeOf q.session.namespaces none).2.config = .ok settings) :
    answer q text =
      if e.fault.isChecked then
        .ok { code := 2, errors := line e.message,
              warnings := warnings q.session.cache (Text.unifyNewlines text) }
      else .error (.declare (.help e)) := by
  have hrefused := Session.declare_refused hc hs hm
  rw [answer]
  dsimp only
  generalize q.session.declare (Text.unifyNewlines text) q.config none = result at hrefused ⊢
  obtain ⟨t, outcome⟩ := result
  obtain rfl : outcome = .error (.help e) := hrefused
  rfl

/-- **The tool answers as a program of the help text would.** -/
theorem answer_forwards (hc : q.session.cache.Honest) (hn : q.session.namespaces = .initial)
    (ho : q.session.output = {}) (hm : q.config.merge {} = .ok settings)
    (hnamed : settings.IsNamed) (hquiet : settings.raiseException = false) (text : String) :
    Forwards (Text.unifyNewlines text) q.config q.arguments (answer q text) := by
  have hhome : q.config.merge (Session.homeOf q.session.namespaces none).2.config =
      .ok settings := by
    rw [hn]
    exact hm
  cases hsource : Grammar.ofHelp (Text.unifyNewlines text) with
  | error e =>
    rw [answer_error hc hsource hhome]
    cases hchecked : e.fault.isChecked with
    | true => exact .refused hsource hchecked rfl rfl
    | false => exact .escaped hsource hchecked
  | ok g =>
    obtain ⟨i, hi⟩ := Interface.exists_make g hnamed
    have hfresh : q.config.merge (Session.homeOf ({} : Session).namespaces none).2.config =
        .ok settings := hm
    obtain ⟨p, hp, hserves⟩ :=
      Session.declare_spec GrammarCache.honest_initial hsource hfresh hi
    have hsound := Interface.sound_process (Interface.actions_of_make hi) q.arguments
    have hsettings : i.settings.raiseException = false := by
      rw [Interface.settings_of_make hi, hquiet]
    obtain ⟨a, ha, hsettled, -⟩ := Interface.conclude_of_sound hsound hsettings
    have hparse := (hserves.parse q.arguments).trans ha
    obtain ⟨report, hreport, hdue⟩ := conclude_due hsource hsettled
    obtain ⟨t, own, hdeclare, -, -, houtput, hread⟩ := Session.declare_read hc hsource hhome hi
    rw [answer, hdeclare]
    dsimp only
    rw [hread]
    dsimp only
    rw [ha]
    dsimp only
    rw [hreport]
    refine .read (Prod.ext rfl hp) hparse ?_
    rw [← hdue, printed_answered (houtput.trans ho), output_of_conclude ha]

theorem merge_configOf (opts : List Setting) :
    ∃ settings, (configOf opts).merge {} = .ok settings ∧ settings.IsNamed ∧
      settings.raiseException = false := by
  have hhelp : "" ∉ (Builtin.defaultNames .help).names := by decide
  have hversion : "" ∉ (Builtin.defaultNames .version).names := by decide
  exact ⟨_, rfl, ⟨hhelp, hversion⟩, rfl⟩

variable {opts : List Setting} {file : String} {ws ys : List String}

/-- **The tool hands command lines on unchanged.** It is called with distinct settings, a file that
does not look like an option and a command line, behind the marker or not starting with it. It asks
for that file, and answers what a program of the help text in it makes of exactly this command line
under the configuration that the settings describe. -/
theorem forwards_words (h : (opts.map Setting.name).Nodup)
    (hfile : file = "-" ∨ file.toList.head? ≠ some '-') (hws : HandsOn ys ws) :
    ∃ q, request (opts.map Setting.spelled ++ file :: ws) = .ok (.ok q) ∧ q.file = file ∧
      ∀ text, Forwards (Text.unifyNewlines text) (configOf opts) ys (answer q text) := by
  obtain ⟨s, hcache, hnamespaces, houtput, hrequest⟩ := request_handed h hfile hws
  obtain ⟨settings, hm, hnamed, hquiet⟩ := merge_configOf opts
  have hforwards := @answer_forwards ⟨file, ys, configOf opts, false, s⟩ settings hcache hnamespaces
    houtput hm hnamed hquiet
  exact ⟨_, hrequest, rfl, hforwards⟩

/-- A marker and an option are handed on from behind the marker, the standard input being the
file. -/
theorem forwards_words_behind_marker :
    ∃ q, request ["--version=1.2", "--no-help", "-", "--", "--", "-h"] = .ok (.ok q) ∧
      q.file = "-" ∧
      ∀ text, Forwards (Text.unifyNewlines text) (configOf [.version "1.2", .noHelp]) ["--", "-h"]
        (answer q text) :=
  @forwards_words [.version "1.2", .noHelp] "-" _ _ (by decide) (.inl rfl) .marked

/-- **A help text can be unusable without being refused**: the label is found, whatever the case of
its letters, but not in lower case. -/
theorem unrefused_label :
    ∃ q e, request ["u"] = .ok (.ok q) ∧ q.file = "u" ∧ Grammar.ofHelp "uſage: p\n" = .error e ∧
      answer q "uſage: p\n" = .error (.declare (.help e)) := by
  have hfile : "u" = "-" ∨ "u".toList.head? ≠ some '-' := .inr (by decide)
  have hws : HandsOn [] [] := .plain (by decide)
  obtain ⟨s, hcache, hnamespaces, -, hrequest⟩ := @request_handed [] "u" [] [] .nil hfile hws
  have hs : Grammar.ofHelp (Text.unifyNewlines "uſage: p\n") =
      .error (.anywhere .labelUnreadable) := by decide +kernel
  obtain ⟨settings, hm, -, -⟩ := merge_configOf []
  have hhome : (configOf []).merge (Session.homeOf s.namespaces none).2.config = .ok settings := by
    rw [hnamespaces]
    exact hm
  have hanswer := @answer_error ⟨"u", [], configOf [], false, s⟩ settings _ _ hcache hs hhome
  exact ⟨_, _, hrequest, rfl, by decide +kernel, hanswer⟩

end Tool

end Synopsis
