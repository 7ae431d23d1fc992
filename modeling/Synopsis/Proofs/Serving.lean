import Synopsis.Proofs.CachedGrammars
import Synopsis.Proofs.Safety
import Synopsis.Proofs.UsageFaults
import Synopsis.Session

/-!
# Programs in a session

A session serves a program if its cache is honest and it keeps no interface for the program but the
one of its grammar and settings. It does so once the program is declared, and still if the interface
is forgotten. Whatever the command line, a session that serves a program gives its arguments, or
under settings that make a faulty command line an error that error.
-/

namespace Synopsis

namespace Session

variable {s : Session} {p : Program} {g : Grammar} {source : String} {settings : Settings}
  {i : Interface}

/-- **A session serves a program**: from what it keeps it can only get the interface of the grammar
and the settings that the program was declared with. -/
structure Serves (s : Session) (p : Program) (i : Interface) : Prop where
  cache : s.cache.Honest
  source : Grammar.ofHelp p.source = .ok p.compiled.grammar
  made : Interface.make p.compiled.grammar p.settings = .ok i
  kept : ∀ entry, Keyed.get? Prod.fst p.number s.interfaces = some entry → entry.2 = i

/-- Making an interface keeps it. -/
theorem analyse_spec (hc : s.cache.Honest) (hs : Grammar.ofHelp source = .ok g)
    (hi : Interface.make g settings = .ok i) (number : Nat) :
    ∃ compiled, compiled.grammar = g ∧
      s.analyse number source settings =
        ({ s with
            cache := (s.cache.compile source).1
            interfaces := Keyed.put Prod.fst (number, i) s.interfaces },
          .ok (compiled, i)) := by
  obtain ⟨compiled, hcompiled, rfl⟩ := hc.gives hs
  refine ⟨compiled, rfl, ?_⟩
  rw [analyse]
  rcases hresult : s.cache.compile source with ⟨cache, result⟩
  rw [hresult] at hcompiled
  obtain rfl : result = .ok compiled := hcompiled
  simp only [hi]

namespace Serves

theorem interface (h : s.Serves p i) : (s.interface p).2 = .ok i := by
  rw [Session.interface]
  cases hkept : Keyed.get? Prod.fst p.number s.interfaces with
  | some entry => exact congrArg Except.ok (h.kept entry hkept)
  | none =>
    obtain ⟨compiled, -, hanalyse⟩ := analyse_spec h.cache h.source h.made p.number
    simp only [hanalyse]

/-- What a session that serves a program reads is what its interface reads. -/
theorem parse (h : s.Serves p i) (arguments : List String) :
    (s.parse p arguments).2 = i.parse arguments := by
  have hi := h.interface
  rw [Session.parse, Session.read]
  rcases hresult : s.interface p with ⟨s', result⟩
  rw [hresult] at hi
  obtain rfl : result = .ok i := hi
  dsimp only
  cases (i.process arguments).answer? with
  | none => rfl
  | some text => rfl

/-- A program is still served when its interface or that of another program is forgotten. -/
theorem forget (h : s.Serves p i) (q : Program) : (s.forget q).Serves p i := by
  refine ⟨h.cache, h.source, h.made, fun entry hentry => ?_⟩
  rw [Session.forget, Keyed.get?, List.find?_filter] at hentry
  by_cases hq : p.number = q.number
  · have hfound := List.find?_some hentry
    simp [hq] at hfound
  · refine h.kept entry ?_
    rw [← hentry, Keyed.get?]
    refine congrArg (fun f => s.interfaces.find? f) ?_
    funext e
    by_cases he : e.1 = p.number <;> simp [he, hq]

end Serves

/-- A program is declared if its help text can be read and its settings make an interface, which is
kept. -/
theorem declare_eq {config : Config} {r : Option NamespaceRef} (hc : s.cache.Honest)
    (hs : Grammar.ofHelp source = .ok g)
    (hm : config.merge (homeOf s.namespaces r).2.config = .ok settings)
    (hi : Interface.make g settings = .ok i) :
    ∃ compiled, compiled.grammar = g ∧
      s.declare source config r =
        ({ s with
            cache := (s.cache.compile source).1
            namespaces := (homeOf s.namespaces r).1
            interfaces := Keyed.put Prod.fst (s.declared, i) s.interfaces
            declared := s.declared + 1 },
          .ok ⟨s.declared, source, (homeOf s.namespaces r).2.name, settings, compiled⟩) := by
  let opened : Session :=
    { s with namespaces := (homeOf s.namespaces r).1, declared := s.declared + 1 }
  have hopened : opened.cache.Honest := hc
  obtain ⟨compiled, hgrammar, hanalyse⟩ := analyse_spec hopened hs hi s.declared
  refine ⟨compiled, hgrammar, ?_⟩
  rw [declare]
  simp only [hm]
  rw [hanalyse]

/-- A program that is declared is served from then on. -/
theorem declare_spec {config : Config} {r : Option NamespaceRef} (hc : s.cache.Honest)
    (hs : Grammar.ofHelp source = .ok g)
    (hm : config.merge (homeOf s.namespaces r).2.config = .ok settings)
    (hi : Interface.make g settings = .ok i) :
    ∃ p, (s.declare source config r).2 = .ok p ∧ (s.declare source config r).1.Serves p i := by
  obtain ⟨compiled, rfl, hdeclare⟩ := declare_eq hc hs hm hi
  rw [hdeclare]
  refine ⟨_, rfl, hc.compile source, hs, hi, fun entry hentry => ?_⟩
  rw [Keyed.get?_put, if_pos rfl] at hentry
  rw [← Option.some.inj hentry]

/-- The session after the answer to a built-in option, if a command line asked for one, is sent. -/
def answered (s : Session) (p : Program) (r : Reading) : Session :=
  match r.answer? with
  | some text => s.send text (some p.name)
  | none => s

/-- What a program reads right after it is declared is what its interface reads. -/
theorem declare_read {config : Config} {r : Option NamespaceRef} (hc : s.cache.Honest)
    (hs : Grammar.ofHelp source = .ok g)
    (hm : config.merge (homeOf s.namespaces r).2.config = .ok settings)
    (hi : Interface.make g settings = .ok i) :
    ∃ t p, s.declare source config r = (t, .ok p) ∧ t.cache.Honest ∧
      t.namespaces = (homeOf s.namespaces r).1 ∧ t.output = s.output ∧
      ∀ arguments, t.read p arguments =
        (t.answered p (i.process arguments), .ok (i, i.process arguments)) := by
  obtain ⟨compiled, -, hdeclare⟩ := declare_eq hc hs hm hi
  refine ⟨_, _, hdeclare, hc.compile source, rfl, rfl, fun arguments => ?_⟩
  have hkept : Keyed.get? Prod.fst s.declared
      (Keyed.put Prod.fst (s.declared, i) s.interfaces) = some (s.declared, i) := by
    rw [Keyed.get?_put, if_pos rfl]
  rw [read, Session.interface, answered]
  simp only [hkept]
  cases (i.process arguments).answer? <;> rfl

/-- **Parsing always gives arguments.** Whatever the command line, a session that serves a program
gives arguments that say how reading ended. A program that differs only in that a faulty command
line is an error gives the same arguments, or that error. -/
theorem parse_returns {config loud : Config} {r : Option NamespaceRef} (hc : s.cache.Honest)
    (hs : Grammar.ofHelp source = .ok g)
    (hm : config.merge (homeOf s.namespaces r).2.config = .ok settings)
    (hnamed : settings.IsNamed) (hquiet : settings.raiseException = false)
    (hloud : loud.merge (homeOf s.namespaces r).2.config =
      .ok { settings with raiseException := true }) :
    ∃ i p q, i.Safe ∧ (s.declare source config r).2 = .ok p ∧ (s.declare source loud r).2 = .ok q ∧
      (s.declare source config r).1.Serves p i ∧
      (s.declare source loud r).1.Serves q i.raising ∧
      ∀ t u : Session, t.Serves p i → u.Serves q i.raising → ∀ arguments,
        ∃ a, (t.parse p arguments).2 = .ok a ∧ a.Settled g.pattern ∧
          (u.parse q arguments).2 = a.orRaised := by
  obtain ⟨i, hi⟩ := Interface.exists_make g hnamed
  have hactions := Interface.actions_of_make hi
  obtain ⟨p, hp, hserves⟩ := declare_spec hc hs hm hi
  obtain ⟨q, hq, hserves'⟩ := declare_spec hc hs hloud (Interface.make_raising hi)
  refine ⟨i, p, q, Interface.safe_of_actions hactions, hp, hq, hserves, hserves', ?_⟩
  intro t u ht hu arguments
  have hsettings : i.settings.raiseException = false := by
    rw [Interface.settings_of_make hi, hquiet]
  obtain ⟨a, ha, hsettled, hraised⟩ := Interface.parse_settled hactions hsettings arguments
  rw [Interface.grammar_of_make hi] at hsettled
  exact ⟨a, (ht.parse arguments).trans ha, hsettled, (hu.parse arguments).trans hraised⟩

/-- A program with one argument. -/
theorem ofHelp_argument : Grammar.ofHelp "Usage: p <x>" =
    .ok ⟨"Usage: p <x>", "Usage: p <x>", "p", .either [.required [.leaf (.argument "<x>")]],
      .empty, .empty⟩ := by
  have hu : Usage.read "Usage: p <x>" =
      .ok ⟨⟨"Usage: p <x>", 1, 12⟩, ⟨"p", 1, 7⟩, [[⟨"<x>", 1, 9⟩]]⟩ := by decide +kernel
  have hd : OptionTable.read "Usage: p <x>" = .ok .empty := by decide +kernel
  rw [grammar_ofHelp hu hd]
  cbv

/-- The program with one argument, without and with errors. -/
theorem parse_returns_one_argument :
    ∃ i p q, i.Safe ∧ (({} : Session).declare "Usage: p <x>" {} none).2 = .ok p ∧
      (({} : Session).declare "Usage: p <x>" { raiseException := some true } none).2 = .ok q ∧
      (({} : Session).declare "Usage: p <x>" {} none).1.Serves p i ∧
      (({} : Session).declare "Usage: p <x>" { raiseException := some true } none).1.Serves q
        i.raising ∧
      ∀ t u : Session, t.Serves p i → u.Serves q i.raising → ∀ arguments,
        ∃ a, (t.parse p arguments).2 = .ok a ∧
          a.Settled (.either [.required [.leaf (.argument "<x>")]]) ∧
          (u.parse q arguments).2 = a.orRaised := by
  exact parse_returns GrammarCache.honest_initial ofHelp_argument rfl ⟨by decide, by decide⟩ rfl rfl

end Session

end Synopsis
